import Keymap.Document

namespace Keymap

inductive SystemCause where
  | absent
  | present
  | notDirectory
  | directory
  | notEmpty
  | longName
  deriving DecidableEq, Repr, Inhabited

def SystemCause.message : SystemCause → String
  | .absent => "[Errno 2] No such file or directory"
  | .present => "[Errno 17] File exists"
  | .notDirectory => "[Errno 20] Not a directory"
  | .directory => "[Errno 21] Is a directory"
  | .notEmpty => "[Errno 39] Directory not empty"
  | .longName => "[Errno 36] File name too long"

inductive Fault where
  | invalid (message : String)
  | refused (message : String)
  | malformed (message : String)
  | outOfRange (message : String)
  | missing (field : Field)
  /-- A value that is no name at all, looked up in a table; `shown` is its text. -/
  | missingValue (shown : String)
  | lacking (kind part : String)
  | mismatch (message : String)
  | overflow (message : String)
  | outOfMemory
  /-- The file system refused; `shown` is the path as messages show it. -/
  | system (cause : SystemCause) (shown : String)
  | divisionByZero
  | badEscape (message : String)
  /-- An external command that ended with status 1 and wrote `output` to its error channel. -/
  | commandFailed (command : List String) (output : String)
  | unavailable (component : String)
  | conversionFailed
  deriving DecidableEq, Repr, Inhabited

namespace Fault

def message : Fault → String
  | .invalid m | .refused m | .malformed m | .outOfRange m | .mismatch m | .overflow m
  | .badEscape m => m
  | .missing field => field.quoted
  | .missingValue shown => shown
  | .lacking kind part => s!"'{kind}' object has no attribute '{part}'"
  | .system cause shown => s!"{cause.message}: {shown}"
  | .outOfMemory => ""
  | .divisionByZero => "float division by zero"
  | .commandFailed command _ =>
    let words := Document.quoted (.list (command.map .text))
    s!"Command '{words}' returned non-zero exit status 1."
  | .unavailable component => s!"No module named '{component}'"
  | .conversionFailed => "cairo failed"

def noEntry : Document → Fault
  | .text s => .missing (.word s)
  | .whole n => .missing (.number n)
  | d => .missingValue d.quoted

def atPath (cause : SystemCause) (path : String) : Fault :=
  .system cause (Text.quote path)

end Fault

abbrev Result (α : Type) := Except Fault α

def invalid {α : Type} (message : String) : Result α :=
  .error (.invalid message)

end Keymap
