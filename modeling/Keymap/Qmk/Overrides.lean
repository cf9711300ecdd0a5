import Keymap.Text.Case
import Keymap.Vocabulary

namespace Keymap.Qmk

def namedKeycode (keycodes : Entries) (key : Document) : Result Document := do
  let plain := Document.text ("KC_" ++ key.toText)
  match (← key.asField).bind fun name => keycodes.lookup name with
  | some entry =>
    let value ← entry.findD "qmk" ""
    return if value.isPresent then value else plain
  | none => return plain

structure Override where
  name : String
  base : String
  shifted : String
  deriving DecidableEq, Repr

def Override.line (o : Override) : String :=
  s!"const key_override_t {o.name} = ko_make_basic(MOD_MASK_SHIFT, {o.base}, {o.shifted});"

def keyOverride (keycodes : Entries) (morph : Document × Document) : Result Override := do
  let base := (← namedKeycode keycodes morph.1).toText
  let shifted := (← namedKeycode keycodes morph.2).toText
  let first := Text.lower (← morph.1.word "lower")
  let second := Text.lower (← morph.2.word "lower")
  return ⟨s!"sm_{first}_{second}", base, shifted⟩

def keyOverrides (keycodes : Entries) (morphs : List (Document × Document)) : Result String := do
  if morphs.isEmpty then return ""
  let overrides ← morphs.mapM (keyOverride keycodes)
  return Text.unlines (
    ["",
     "#ifdef KEY_OVERRIDE_ENABLE",
     "// Shift-morph key overrides (sm: syntax)",
     "// These override the default shifted behavior of keys"] ++
    overrides.map Override.line ++
    ["",
     "const key_override_t *key_overrides[] = \x7b"] ++
    overrides.map (fun o => s!"    &{o.name},") ++
    ["    NULL",
     "\x7d;",
     "#endif  // KEY_OVERRIDE_ENABLE",
     ""])

end Keymap.Qmk
