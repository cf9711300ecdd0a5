import Keymap.Grid
import Keymap.Text.Case
import Keymap.Text.Listing
import Keymap.Timing

/-!
Layers: a core of 36 keys, a full layout for a particular board, or both, and extensions with the
keys that larger boards add.
-/

namespace Keymap

structure Extension where
  kind : Field
  keys : Document
  deriving Inhabited

namespace Extension

def outerColumns : List String :=
  ["outer_pinky_left", "outer_pinky_right"]

def isColumn (d : Document) : Bool :=
  match d with
  | .list items => items.length == 3
  | _ => false

def checkColumns (context : String) (requires : String) (keys : Document) : Result Unit := do
  match keys with
  | .record entries =>
    let present := fun name => (entries.lookup (.word name)).isSome
    if !outerColumns.all present then
      invalid s!"{context}{requires}: {Text.setText outerColumns}"
    for name in outerColumns do
      if !((entries.lookup (.word name)).map isColumn).getD false then
        invalid s!"{context}{name} must be a list of exactly 3 keys"
  | d => .error (.lacking d.kind "keys")

def validate (e : Extension) : Result Unit :=
  if e.kind = "3x6_3" then checkColumns "" "3x6_3 requires" e.keys else .ok ()

def allKeys (e : Extension) : Result (List Document) := do
  let entries ← e.keys.entries
  return entries.flatMap fun entry =>
    match entry.2 with
    | .list items => items
    | d => [d]

end Extension

structure Layer where
  name : Document
  core : Option KeyGrid := none
  fullLayout : Option KeyGrid := none
  extensions : List Extension := []
  deriving Inhabited

namespace Layer

def title (layer : Layer) : String :=
  layer.name.toText

def extension? (layer : Layer) (kind : String) : Option Extension :=
  layer.extensions.find? fun e => e.kind = .word kind

def isName (name : String) : Bool :=
  let plain := Text.replace "_" "" name
  Text.isUpper name && !plain.isEmpty && plain.toList.all Text.isAlphanumeric

def validate (layer : Layer) : Result Unit := do
  if layer.core.isNone && layer.fullLayout.isNone then
    invalid s!"Layer {layer.title} must have either 'core' or 'full_layout' defined"
  if let some core := layer.core then
    let n := core.flatten.length
    if n != 36 then
      invalid s!"Layer {layer.title} core must have exactly 36 keys, found {n}"
  if !isName (← layer.name.word "isupper") then
    invalid s!"Invalid layer name: {layer.title}"

def gridOf? : Document → Result (Option KeyGrid)
  | .null => .ok none
  | rows => (KeyGrid.ofDocument rows).map some

def ofDocument (d : Document) : Result Layer := do
  return {
    name := ← d.field "name"
    core := ← gridOf? (d.getD "core")
    fullLayout := ← gridOf? (d.getD "full_layout")
    extensions := ((d.getD "extensions").entries?.getD []).map fun (kind, keys) => ⟨kind, keys⟩ }

end Layer

/-- A layer, an extension of it and a name there: where a list of keys stands. -/
abbrev KeyPlace := String × Field × Field

structure KeymapConfig where
  layers : List Layer
  behaviors : Behaviors := {}
  metadata : Document := .record []
  /-- Places of one list. A file can give a list a name and then use it elsewhere. -/
  shared : List (List KeyPlace) := []
  deriving Inhabited

/-- All that is one with a thing. -/
def sharers {α : Type} [BEq α] (groups : List (List α)) (a : α) : List α :=
  (groups.find? fun group => group.contains a).getD [a]

def putLayer (layer : Layer) : List Layer → List Layer
  | [] => [layer]
  | l :: ls => if l.name.same layer.name then layer :: ls else l :: putLayer layer ls

def layersByName (layers : List Layer) : List Layer :=
  layers.foldl (fun acc l => putLayer l acc) []

def layersOfDocument (d : Document) : Result (List Layer) := do
  let layers ← (d.items?.getD []).mapM Layer.ofDocument
  layers.forM fun l => do let _ ← l.name.asField
  return layersByName layers

def findLayer? (layers : List Layer) (name : String) : Option Layer :=
  layers.find? fun l => l.name.isWord name

def lookupLayer (layers : List Layer) (name : Document) : Result (Option Layer) := do
  let _ ← name.asField
  return layers.find? fun l => l.name.same name

namespace KeymapConfig

def noLayer : String := "At least one layer must be defined"

def noBase : String :=
  "At least one BASE layer is required (e.g., BASE, BASE_COLEMAK, BASE_GALLIUM)"

def checkBase (layers : List Layer) : Result Unit := do
  if layers.isEmpty then invalid noLayer
  let names ← layers.mapM fun l => l.name.word "startswith"
  if !names.any fun name => Text.startsWith name "BASE" then invalid noBase

def validate (config : KeymapConfig) : Result Unit := do
  checkBase config.layers
  config.layers.forM Layer.validate

end KeymapConfig

/-! A second, stricter check, made before anything is generated. -/

namespace Layer

def isIdentifier (name : String) : Bool :=
  match name.toList with
  | [] => false
  | c :: cs =>
    Text.isUpper name && (Text.isLetter c || c == '_') && (c :: cs).all Text.isWordChar

/-- Position references do not count as keys here. -/
def checkTexts (context : String) (entries : List Entry) : Result Unit :=
  entries.zipIdx.forM fun (entry, i) =>
    match entry with
    | .key _ => .ok ()
    | .position _ => invalid s!"{context} at position {i} must be a string, got dict"

def checkStrictly (layer : Layer) : Result Unit := do
  let name := layer.title
  if layer.core.isNone && layer.fullLayout.isNone then
    invalid s!"Layer {name}: must have either 'core' or 'full_layout'"
  if let some core := layer.core then
    let n := core.flatten.length
    if n != 36 then
      invalid s!"Layer {name}: core must have exactly 36 keys, found {n}"
    checkTexts s!"Layer {name}: keycode" core.flatten
  if let some full := layer.fullLayout then
    checkTexts s!"Layer {name}: full_layout keycode" full.flatten
  for e in layer.extensions do
    if e.kind = "3x6_3" then
      Extension.checkColumns s!"Layer {name}: extension 3x6_3 " "requires" e.keys

end Layer

def checkLayersStrictly (layers : List Layer) : Result Unit := do
  KeymapConfig.checkBase layers
  for layer in layers do
    if !Layer.isIdentifier layer.title then
      invalid (s!"Invalid layer name: '{layer.title}'. " ++
        "Layer names must be uppercase alphanumeric with underscores")
  layers.forM Layer.checkStrictly

end Keymap
