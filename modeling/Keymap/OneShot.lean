import Keymap.Layer

/-!
One-shot layers. A key `osl:T` holds layer `T` for the next key. It only works if `T` comes after
the layer that the key is on, so a key that names its own layer or an earlier one is pointed at a
shadow of `T`: a copy under the name `T_SHADOW` at the end of the keymap.
-/

namespace Keymap

def Document.codes : Document → List String
  | .list items => items.filterMap Document.text?
  | d => d.text?.toList

def Document.mapCodes (f : String → String) : Document → Document
  | .list items => .list (items.map (Document.mapText f))
  | d => d.mapText f

def Extension.codes (e : Extension) : Result (List String) :=
  match e.keys with
  | .record entries => .ok <| entries.flatMap fun entry => entry.2.codes
  | d => .error (.lacking d.kind "values")

def Extension.mapCodes (f : Field → String → String) (e : Extension) : Extension :=
  match e.keys with
  | .record entries =>
    { e with keys := .record <| entries.map fun (name, keys) => (name, keys.mapCodes (f name)) }
  | _ => e

def Entry.code? : Entry → Option String
  | .key code => some code
  | .position _ => none

def Entry.mapCode (f : String → String) : Entry → Entry
  | .key code => .key (f code)
  | .position i => .position i

def KeyGrid.codes (grid : KeyGrid) : List String :=
  grid.rows.flatMap fun row => row.filterMap Entry.code?

def KeyGrid.mapCodes (f : String → String) (grid : KeyGrid) : KeyGrid :=
  ⟨grid.rows.map fun row => row.map (Entry.mapCode f)⟩

namespace Layer

def gridCodes (grid : Option KeyGrid) : List String :=
  (grid.map KeyGrid.codes).getD []

def codes (layer : Layer) : Result (List String) := do
  let extended ← layer.extensions.mapM Extension.codes
  return gridCodes layer.core ++ gridCodes layer.fullLayout ++ extended.flatten

def mapCodes (f : String → String) (g : Field → Field → String → String) (layer : Layer) : Layer :=
  { layer with
    core := layer.core.map (KeyGrid.mapCodes f)
    fullLayout := layer.fullLayout.map (KeyGrid.mapCodes f)
    extensions := layer.extensions.map fun e => e.mapCodes (g e.kind) }

end Layer

namespace OneShot

def isOneShot (code : String) : Bool :=
  Text.startsWith code "osl:"

/-- The layer named by a key of the form `osl:T` with one colon and a non-empty `T`. -/
def target? (code : String) : Option String :=
  match Text.split ':' code with
  | [_, target] => if target.isEmpty then none else some target
  | _ => none

def isNamed (names : List Document) (name : String) : Bool :=
  names.any fun d => d.isWord name

def target (names : List Document) (source : Document) (code : String) : Result String :=
  match target? code with
  | none => invalid s!"Layer {source.toText}: Invalid osl syntax '{code}'. Expected osl:<LAYER>"
  | some target =>
    if isNamed names target then .ok target
    else invalid s!"Layer {source.toText}: OSL target layer '{target}' does not exist"

def collides (names : List Document) (source : Document) (target : String) : Bool :=
  names.findIdx (fun d => d.isWord target) ≤ names.findIdx (fun d => d.same source)

def collisionsIn (names : List Document) (source : Document) :
    List String → Result (List String)
  | [] => .ok []
  | code :: rest => do
    if isOneShot code then
      let target ← target names source code
      let others ← collisionsIn names source rest
      return if collides names source target then target :: others else others
    else collisionsIn names source rest

def gridCollisions (names : List Document) (layer : Layer) : Result (List String) :=
  collisionsIn names layer.name (Layer.gridCodes layer.core ++ Layer.gridCodes layer.fullLayout)

def collisions (names : List Document) (layer : Layer) : Result (List String) := do
  let inGrids ← gridCollisions names layer
  let inExtensions ← layer.extensions.mapM fun e => do
    collisionsIn names layer.name (← e.codes)
  return inGrids ++ inExtensions.flatten

def shadowName (name : String) : String :=
  name ++ "_SHADOW"

def redirect (names : List Document) (targets : List String) (source : Document) (code : String) :
    String :=
  match target? code with
  | some target =>
    if isOneShot code && isNamed names target && targets.contains target &&
        collides names source target then
      "osl:" ++ shadowName target
    else code
  | none => code

def checkFree (names : List Document) (target : String) : Result Unit :=
  if isNamed names (shadowName target) then
    invalid (s!"Shadow layer '{shadowName target}' already exists. " ++
      "Remove or rename it to allow auto-generation.")
  else .ok ()

/-- The layer that rewrites a list of keys at another place of it. -/
def sourceAt (layer : Layer) (place other : KeyPlace) : Document :=
  if other == place then layer.name else .text other.1

/-- The layers that have a list of keys. Each of them rewrites it in its turn. -/
def sources (config : KeymapConfig) (layer : Layer) (place : KeyPlace) : List Document :=
  (sharers config.shared place).map (sourceAt layer place)

def earlierSources (config : KeymapConfig) (layer : Layer) (place : KeyPlace) : List Document :=
  ((sharers config.shared place).takeWhile (· != place)).map (sourceAt layer place)

def redirectAll (names : List Document) (targets : List String) (sources : List Document)
    (code : String) : String :=
  sources.foldl (fun code source => redirect names targets source code) code

/-- A list that earlier layers have rewritten is read again, and shadows are not among the layers. -/
def checkShared (config : KeymapConfig) (names : List Document) (targets : List String)
    (layer : Layer) : Result Unit :=
  layer.extensions.forM fun e => (e.keys.entries?.getD []).forM fun (name, keys) => do
    let earlier := earlierSources config layer (layer.title, e.kind, name)
    if !earlier.isEmpty then
      let _ ← collisionsIn names layer.name (keys.mapCodes (redirectAll names targets earlier)).codes

def rewrite (config : KeymapConfig) (names : List Document) (targets : List String)
    (layer : Layer) : Layer :=
  layer.mapCodes (redirect names targets layer.name) fun kind name =>
    redirectAll names targets (sources config layer (layer.title, kind, name))

def needShadow (config : KeymapConfig) (targets : List String) : List Layer :=
  config.layers.filter fun layer => targets.any layer.name.isWord

def withShadows (config : KeymapConfig) (targets : List String) : KeymapConfig :=
  let redirected := config.layers.map (rewrite config (config.layers.map (·.name)) targets)
  let shadows := (needShadow config targets).map fun layer =>
    { layer with name := .text (shadowName layer.title) }
  { config with layers := redirected ++ shadows }

def addShadows (config : KeymapConfig) : Result KeymapConfig := do
  let names := config.layers.map (·.name)
  let targets := (← config.layers.mapM (collisions names)).flatten
  (needShadow config targets).forM fun layer => checkFree names layer.title
  config.layers.forM (checkShared config names targets)
  return withShadows config targets

end OneShot

end Keymap
