import Keymap.Text.Edit
import Keymap.Text.Numeral

namespace Keymap.Generate

structure Options where
  board : Option String := none
  validateOnly : Bool := false
  verbose : Bool := false
  magicTraining : Bool := true
  comboTraining : Bool := true
  deriving DecidableEq, Repr, Inhabited

inductive Invocation where
  | run (options : Options)
  | help
  | refused
  deriving DecidableEq, Repr, Inhabited

namespace Options

inductive Switch where
  | help
  | board
  | validate
  | verbose
  | noMagicTraining
  | noComboTraining
  deriving DecidableEq, Repr

def switches : List (String × Switch) :=
  [("-h", .help), ("--help", .help), ("--board", .board), ("--validate", .validate),
   ("--validate-only", .validate), ("-v", .verbose), ("--verbose", .verbose),
   ("--no-magic-training", .noMagicTraining), ("--no-combo-training", .noComboTraining)]

inductive Attached where
  | nothing
  | value (text : String)
  | joined (text : String)
  deriving DecidableEq, Repr

inductive Word where
  | switch (s : Switch) (attached : Attached)
  | operand (text : String)
  | unknown
  | separator
  deriving DecidableEq, Repr

def isNegativeNumber (text : String) : Bool :=
  match text.toList with
  | '-' :: cs =>
    let cs := if cs.getLast? == some '\n' then cs.dropLast else cs
    let fraction := (cs.dropWhile Text.isDecimal).drop 1
    (!cs.isEmpty && cs.all Text.isDecimal) ||
      ((cs.dropWhile Text.isDecimal).head? == some '.' && !fraction.isEmpty &&
        fraction.all Text.isDecimal)
  | _ => false

def cutValue (text : String) : String × Attached :=
  let cs := text.toList
  let name := cs.takeWhile (· != '=')
  if name.length = cs.length then (text, .nothing)
  else (String.ofList name, .value (String.ofList (cs.drop (name.length + 1))))

def candidates (text : String) : List Word :=
  if Text.startsWith text "--" then
    let (name, value) := cutValue text
    switches.filterMap fun (full, s) =>
      if Text.startsWith full name then some (.switch s value) else none
  else
    switches.filterMap fun (full, s) =>
      if full = Text.take 2 text then some (.switch s (.joined (Text.drop 2 text))) else none

def word? (text : String) : Option Word :=
  if !Text.startsWith text "-" then some (.operand text)
  else match switches.lookup text with
    | some s => some (.switch s .nothing)
    | none =>
      if text = "-" then some (.operand text)
      else
        let (name, value) := cutValue text
        match switches.lookup name with
        | some s => some (.switch s value)
        | none =>
          match candidates text with
          | [w] => some w
          | _ :: _ :: _ => none
          | [] =>
            if isNegativeNumber text || text.toList.contains ' ' then some (.operand text)
            else some .unknown

/-- Reads all words. After a separator every word is an operand. -/
def words? : List String → Option (List Word)
  | [] => some []
  | text :: rest =>
    if text = "--" then some (.separator :: rest.map .operand)
    else do return (← word? text) :: (← words? rest)

def Switch.apply (options : Options) : Switch → Options
  | .help | .board => options
  | .validate => { options with validateOnly := true }
  | .verbose => { options with verbose := true }
  | .noMagicTraining => { options with magicTraining := false }
  | .noComboTraining => { options with comboTraining := false }

/-- The switches joined to a first one, up to a letter that is none, and whether there is such a
letter. None of them takes a value, so an equals sign or a second dash is an error. -/
def joined? : List Char → Option (List Switch × Bool)
  | [] => some ([], false)
  | c :: cs =>
    if c == '-' || c == '=' then none
    else match switches.lookup ("-" ++ String.singleton c) with
      | none => some ([], true)
      | some s => (joined? cs).map fun (more, stray) => (s :: more, stray)

def follow (options : Options) (stray : Bool) : List Word → Invocation
  | [] => if stray then .refused else .run options
  | .switch .board .nothing :: .operand value :: rest =>
    follow { options with board := some value } stray rest
  | .switch .board .nothing :: _ => .refused
  | .switch .board (.value value) :: rest =>
    follow { options with board := some value } stray rest
  | .switch .help .nothing :: _ => .help
  | .switch s .nothing :: rest => follow (s.apply options) stray rest
  | .switch _ (.value _) :: _ => .refused
  | .switch s (.joined letters) :: rest =>
    match joined? letters.toList with
    | none => .refused
    | some (more, unknown) =>
      if (s :: more).contains .help then .help
      else follow ((s :: more).foldl Switch.apply options) (stray || unknown) rest
  | _ :: rest => follow options true rest

def read (words : List String) : Invocation :=
  match words? words with
  | none => .refused
  | some words => follow {} false words

def helpText : String := Text.unlines [
  "usage: generate.py [-h] [--board BOARD_ID] [--validate] [-v]",
  "                   [--no-magic-training] [--no-combo-training]",
  "",
  "Generate QMK and ZMK keymaps from unified YAML configuration",
  "",
  "options:",
  "  -h, --help            show this help message and exit",
  "  --board BOARD_ID      Generate for specific board only",
  "  --validate, --validate-only",
  "                        Validate configuration without generating files",
  "  -v, --verbose         Enable verbose output (detailed progress information)",
  "  --no-magic-training   Disable magic-key training (default is on; training",
  "                        replaces mapped bigrams with '#')",
  "  --no-combo-training   Disable combo training (default is on; training",
  "                        punishes sequential typing of combo outputs with '#')"]

end Options

end Keymap.Generate
