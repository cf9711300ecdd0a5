import Keymap.Vocabulary

namespace Keymap.Qmk

/-- Empty values mean that the firmware has no such key. -/
def supported (d : Document) : Document :=
  if d.isPresent then d else "KC_NO"

/-- A shift morph is placed as its base key; the shifted key comes from a key override. -/
def morphBase (v : Vocabulary) (base : String) : Result Document :=
  match v.keycode? base with
  | some entry => entry.findD "qmk" (.text ("KC_" ++ base))
  | none => .ok (.text ("KC_" ++ base))

def composite (v : Vocabulary) (key : String) : Result Document := do
  match Vocabulary.parts key with
  | ["sm", base, _] => morphBase v base
  | "sm" :: arguments => .error (Vocabulary.wrongMorph arguments.length)
  | name :: arguments =>
    match findAlias? v.aliases name with
    | none => return "KC_NO"
    | some rule =>
      if !(← rule.supports "qmk") then return "KC_NO"
      Vocabulary.checkCount rule name arguments
      let args ← rule.argumentsFor arguments fun _ said => .ok (.text said)
      return .text (← rule.toQmk args)
  | [] => return "KC_NO"

def value (v : Vocabulary) (key : String) : Result Document :=
  if key = "MAGIC" then .ok "QK_AREP"
  else match v.keycode? key with
    | some entry => (entry.findD "qmk" "KC_NO").map supported
    | none =>
      if Vocabulary.isComposite key then composite v key
      else .error (Vocabulary.unknownKey key)

def modifierEndings : List String :=
  ["GUI", "ALT", "CTL", "CTRL", "SFT", "SHFT"]

def isModifier (name : String) : Bool :=
  (Text.startsWith name "L" || Text.startsWith name "R") &&
    modifierEndings.any fun e => Text.endsWith name e

def modifiers (v : Vocabulary) : Result (List String) := do
  let names ← v.keycodes.mapM fun entry =>
    match entry.1 with
    | .word name => Except.ok name
    | .number _ => .error (Fault.lacking "int" "startswith")
  return names.filter isModifier

def checkBinding (v : Vocabulary) (layer key : String) : Result Unit :=
  v.checkBinding "qmk" (modifiers v) layer key

end Keymap.Qmk
