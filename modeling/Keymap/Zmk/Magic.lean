import Keymap.Zmk.Macros
import Keymap.Zmk.Nodes

namespace Keymap.Zmk

def bareKey (binding : Document) : Result String := do
  return Text.replace "&kp " "" (← binding.word "replace")

def macroRef? (refs : MacroRefs) (baseLayer : Document) (previous : Field) : Option String :=
  (baseLayer.text?.bind fun base => refs.lookup (base, previous.text)).map ("&" ++ ·)

def alternateBinding (keycodes : Entries) (refs : MacroRefs) (baseLayer : Document)
    (previous : Field) (alternate : Document) : Result Document :=
  match macroRef? refs baseLayer previous with
  | some name => .ok (.text name)
  | none => simpleKey keycodes alternate

/-- Keys other than letters do not trigger while modifiers are held: otherwise a key would also
match its shifted variant. -/
def isLetterKey (key : String) : Bool :=
  match key.toList with
  | [c] => Text.isLetter c
  | _ => false

def magicTrigger (keycodes : Entries) (refs : MacroRefs) (m : MagicMapping) (previous : Field)
    (alternate : Document) : Result Trigger := do
  let raw ← simpleKey keycodes previous.toDocument
  let binding ← alternateBinding keycodes refs m.baseLayer previous alternate
  match Text.words (← bareKey raw) with
  | [] => .error (.outOfRange "list index out of range")
  | key :: _ =>
    return {
      name := labelOf raw.toText ++ "_trigger"
      keys := [key]
      binding := binding.toText
      strict := !isLetterKey key
      maxIdle := ← timeLimit m.timeout }

def magicDefault (keycodes : Entries) (d : Document) : Result Document :=
  match d with
  | .text "REPEAT" => .ok "&key_repeat"
  | .text "NONE" => .ok "&none"
  | d => simpleKey keycodes d

def familyOf (m : MagicMapping) : Result String :=
  (m.baseLayer.word "lower").map familyLabel

def magicKeyNode (keycodes : Entries) (refs : MacroRefs) (m : MagicMapping) :
    Result AdaptiveKey := do
  let family ← familyOf m
  let binding ← magicDefault keycodes m.default
  let triggers ← (← m.mappings.entries).mapM fun (previous, alternate) =>
    magicTrigger keycodes refs m previous alternate
  return { name := "ak_" ++ family, binding := binding.toText, triggers }

def magicWrapper (table : BehaviorTable) (behavior hold family : String) : HoldTap :=
  { name := s!"{behavior}_ak_{family}"
    label := Text.upper behavior ++ "_AK_" ++ Text.upper family
    properties := (table.lookup behavior).getD []
    hold
    tap := s!"&ak_{family}" }

def magicKeyLines (keycodes : Entries) (table : BehaviorTable) (refs : MacroRefs)
    (m : MagicMapping) : Result (List String) := do
  let family ← familyOf m
  let key ← magicKeyNode keycodes refs m
  return [s!"        // Adaptive key for {m.title} family"] ++
    key.lines [""] "" ++
    (magicWrapper table "lt" "&mo" family).lines ++
    (magicWrapper table "mt" "&kp" family).lines

def magicSection (keycodes : Entries) (table : BehaviorTable) (refs : MacroRefs)
    (magic : MagicConfig) : Result String := do
  if magic.isEmpty then return ""
  let nodes ← magic.mapM (magicKeyLines keycodes table refs)
  return Text.unlines (
    ["    // Magic key behaviors (adaptive key)",
     "    // Each base layer has its own adaptive key with layer-specific mappings",
     "    behaviors \x7b"] ++
    nodes.flatten ++
    ["    \x7d;",
     ""])

end Keymap.Zmk
