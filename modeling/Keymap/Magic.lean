import Keymap.Document.Access

/-! Magic keys: what the magic key types depends on the key pressed before it. -/

namespace Keymap

structure MagicMapping where
  baseLayer : Document
  timeout : Document
  mappings : Document
  default : Document := "REPEAT"
  deriving Inhabited

abbrev MagicConfig := List MagicMapping

namespace MagicMapping

def fields (m : MagicMapping) : Entries :=
  [("base_layer", m.baseLayer), ("timeout_ms", m.timeout), ("mappings", m.mappings),
   ("default", m.default)]

def ofDocument (d : Document) : Result MagicMapping := do
  d.checkForm ["base_layer", "timeout_ms", "mappings"] ["default"]
  return {
    baseLayer := d.getD "base_layer"
    timeout := d.getD "timeout_ms"
    mappings := d.getD "mappings"
    default := d.getD "default" "REPEAT" }

def title (m : MagicMapping) : String :=
  m.baseLayer.toText

def isExplicit (entries : Entries) : Bool :=
  ((entries.lookup (.word "text")).map Document.isText).getD false ||
    ((entries.lookup (.word "kc")).map Document.isText).getD false

def isAlternate : Document → Bool
  | .text _ => true
  | .list items => items.all Document.isText
  | .record entries => isExplicit entries
  | _ => false

def validate (m : MagicMapping) : Result Unit := do
  if ← m.timeout.isBelow 0 then
    invalid s!"Magic key {m.title}: timeout_ms must be zero or positive"
  if !m.mappings.isPresent then
    invalid s!"Magic key {m.title}: mappings cannot be empty"
  for (previous, alternate) in ← m.mappings.entries do
    if !isAlternate alternate then
      invalid (s!"Magic key {m.title}: mapping for '{previous.text}' " ++
        "must be a string, list of strings, or dict with 'text'/'kc'")
  match m.default with
  | .record entries =>
    if !isExplicit entries then
      invalid s!"Magic key {m.title}: default mapping must use 'text' or 'kc'"
  | .text "REPEAT" | .text "NONE" => return
  | d =>
    if !Text.startsWith d.toText "KC_" then
      invalid s!"Magic key {m.title}: invalid default '{d.toText}'"

end MagicMapping

namespace MagicConfig

def validate (magic : MagicConfig) : Result Unit :=
  magic.forM MagicMapping.validate

def find? (magic : MagicConfig) (baseLayer : Document) : Option MagicMapping :=
  List.find? (fun m => m.baseLayer.same baseLayer) magic

def forFamily? (layer : Document) : MagicConfig → Result (Option MagicMapping)
  | [] => .ok none
  | m :: rest => do
    let name ← layer.word "endswith"
    let family := Text.replace "BASE_" "" (← m.baseLayer.word "replace")
    if Text.endsWith name family then return some m else forFamily? layer rest

/-- The mapping of a layer: its own, or that of the first base layer whose family name ends the
layer's name. -/
def forLayer? (magic : MagicConfig) (layer : Document) : Result (Option MagicMapping) := do
  let _ ← layer.asField
  match magic.find? layer with
  | some m => return some m
  | none => forFamily? layer magic

end MagicConfig

def putMagic (m : MagicMapping) : MagicConfig → MagicConfig
  | [] => [m]
  | x :: xs => if x.baseLayer.same m.baseLayer then m :: xs else x :: putMagic m xs

def magicOfDocument (d : Document) : Result MagicConfig := do
  let mappings ← (d.items?.getD []).mapM MagicMapping.ofDocument
  mappings.forM fun m => do let _ ← m.baseLayer.asField
  return mappings.foldl (fun acc m => putMagic m acc) []

end Keymap
