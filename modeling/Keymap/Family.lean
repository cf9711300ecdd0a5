import Keymap.Layer

/-! Families of layers: a base layer `BASE_X` and the utility layers that its keys reach. -/

namespace Keymap

structure Families where
  layers : List Layer
  metadata : Document := .record []
  deriving Inhabited

namespace Families

def names (f : Families) : List String :=
  f.layers.map (·.title)

def isBase (name : String) : Bool :=
  Text.startsWith name "BASE_"

def bases (f : Families) : List String :=
  f.names.filter isBase

def variantSuffixes : List String :=
  ["_NIGHT", "_V2", "_DUSK"]

def plainName (name : String) : String :=
  if isBase name then Text.replace "BASE_" "" name
  else match variantSuffixes.find? (Text.endsWith name) with
    | some suffix => Text.replace suffix "" name
    | none => name

def displayName (f : Families) (name : Document) : Result Document := do
  if ← f.metadata.holds name then (← f.metadata.select name).findD "display_name" name
  else return .text (plainName (← name.word "startswith"))

def reference? (code : String) : Option String :=
  if Text.startsWith code "lt:" || Text.startsWith code "osl:" then (Text.split ':' code)[1]?
  else none

def references (layer : Layer) : List String :=
  match layer.core with
  | none => []
  | some core => core.rows.flatten.filterMap fun entry =>
    match entry with
    | .key code => reference? code
    | .position _ => none

def variant? (name : String) : Option String :=
  if Text.contains name "_NIGHT" then some "_NIGHT"
  else if Text.contains name "_V2" then some "_V2"
  else none

def variants (layer : Layer) : List String :=
  ((references layer).filterMap variant?).eraseDups

def suffix (layer : Layer) : String :=
  match variants layer with
  | [variant] => variant
  | _ => ""

def warning? (layer : Layer) : Option String :=
  match variants layer with
  | [] | [_] => none
  | several => some (s!"⚠️  Warning: {layer.title} references inconsistent layer variants: " ++
      Text.setText several)

def utilities : List String :=
  ["SYM", "NUM", "NAV", "MEDIA", "FUN"]

def baseLayers (f : Families) : List Layer :=
  f.layers.filter fun layer => isBase layer.title

/-- A base layer and its utility layers. All variants share the layer `FUN`. -/
def members (f : Families) (layer : Layer) : List String :=
  let utility := fun name => if name = "FUN" then name else name ++ suffix layer
  layer.title :: (utilities.map utility).filter f.names.contains

def all (f : Families) : List (String × List String) :=
  f.baseLayers.map fun layer => (layer.title, f.members layer)

def family (f : Families) (base : Document) : Result (List String) := do
  let _ ← base.asField
  return (base.text?.bind fun name => f.all.lookup name).getD []

def warnings (f : Families) : List String :=
  f.baseLayers.filterMap warning?

def showName (name : String) (shown text : Document) : Result Document := do
  if shown.isWord name then return text
  let s ← text.word "replace"
  match shown with
  | .text shown => return .text (Text.replace name shown s)
  | .null => .error (.mismatch "replace() argument 2 must be str, not None")
  | d => .error (.mismatch s!"replace() argument 2 must be str, not {d.kind}")

def showNames (f : Families) (text : Document) : Result Document :=
  let byLength := f.names.mergeSort fun a b => b.length ≤ a.length
  byLength.foldlM (fun text name => do showName name (← f.displayName (.text name)) text) text

structure LayerNames where
  names : List String
  legends : Entries
  defaults : Entries
  deriving Inhabited

def drawnNames (f : Families) : List String :=
  let order := ["NUM", "SYM", "NAV", "MEDIA", "FUN"]
  let variants := order.flatMap fun name => [name ++ "_NIGHT", name ++ "_V2"]
  f.bases ++ order.filter f.names.contains ++ variants.filter f.names.contains

def legends (f : Families) (names : List String) : Result Entries := do
  let shown ← names.mapM fun name => return (name, ← f.displayName (.text name))
  return (shown.filter fun (name, d) => !d.isWord name).map fun (name, d) => (Field.word name, d)

/-- At most four characters: the first two and the last two of a longer name. -/
def shortLabel (d : Document) : Result String := do
  let n ← d.length
  if n > 4 then discard d.sequence
  let s ← d.word "upper"
  return Text.upper (if n ≤ 4 then s else Text.take 2 s ++ Text.drop (n - 2) s)

def layerNames (f : Families) : Result LayerNames := do
  let names := f.drawnNames
  let legends ← f.legends names
  let defaults ← f.bases.mapM fun base => do
    return (Field.word s!"DF({base})", Document.text (← shortLabel (← f.displayName (.text base))))
  return { names, legends, defaults }

def LayerNames.toDocument (n : LayerNames) : Document :=
  .record [("layer_names", .list (n.names.map .text)), ("layer_legend_map", .record n.legends),
    ("df_keycodes", .record n.defaults)]

end Families

end Keymap
