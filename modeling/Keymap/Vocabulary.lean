import Keymap.Alias

/-!
The words of unified key texts: the keycode table, which gives each plain key its text for either
firmware, and the aliases, which do so for keys of the form `alias:argument:argument`.
-/

namespace Keymap

structure Vocabulary where
  aliases : Aliases := []
  keycodes : Entries := []
  deriving Inhabited

abbrev ShiftMorph := String × String

def insertOnce {α : Type} [BEq α] (x : α) (xs : List α) : List α :=
  if xs.contains x then xs else xs ++ [x]

namespace Vocabulary

def keycode? (v : Vocabulary) (name : String) : Option Document :=
  v.keycodes.lookup (.word name)

def parts (key : String) : List String :=
  Text.split ':' key

def isComposite (key : String) : Bool :=
  key.toList.contains ':'

/-- The shift morph that a key text asks for: `sm:base:shifted`, unless the whole text is itself a
key of the table. -/
def shiftMorph? (v : Vocabulary) (key : String) : Option ShiftMorph :=
  if (v.keycode? key).isSome then none
  else match parts key with
    | ["sm", base, shifted] => some (base, shifted)
    | _ => none

def noteMorph (v : Vocabulary) (key : String) (morphs : List ShiftMorph) : List ShiftMorph :=
  match v.shiftMorph? key with
  | some morph => insertOnce morph morphs
  | none => morphs

def unknownKey (key : String) : Fault :=
  .invalid (s!"Unknown keycode '{key}' not found in keycodes.yaml. " ++
    "All keycodes must be defined in config/keycodes.yaml")

def wrongMorph (arguments : Nat) : Fault :=
  .invalid ("Shift-morph 'sm' expects 2 parameters (base_key, shifted_key), " ++
    s!"got {arguments}")

def checkCount (rule : Alias) (name : String) (arguments : List String) : Result Unit := do
  let expected ← rule.params.length
  if arguments.length ≠ expected then
    invalid s!"Alias {name} expects {expected} parameters, got {arguments.length}"

/-- Checks the number of arguments of a composite key, and, for home-row mods, the modifier.
Unknown aliases and those that the firmware does not support pass: their keys are left out. -/
def checkBinding (v : Vocabulary) (firmware : String) (modifiers : Result (List String))
    (layer key : String) : Result Unit := do
  if !isComposite key then return
  match parts key with
  | [] => return
  | name :: arguments =>
    match findAlias? v.aliases name with
    | none => return
    | some rule =>
      if !(← rule.supports firmware) then return
      let expected ← rule.params.length
      if arguments.length != expected then
        invalid (s!"Layer {layer}: Alias '{name}' expects {expected} parameters, " ++
          s!"got {arguments.length} in keycode '{key}'")
      if name = "hrm" then
        match arguments with
        | [] => .error (.outOfRange "list index out of range")
        | modifier :: _ =>
          let valid ← modifiers
          if !valid.contains modifier then
            invalid (s!"Layer {layer}: Invalid modifier '{modifier}' in '{key}'. " ++
              "Valid modifiers: " ++ Text.join ", " valid)

end Vocabulary

end Keymap
