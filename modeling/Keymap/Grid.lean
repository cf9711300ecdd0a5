import Keymap.Decimal.Reading
import Keymap.Document.Access

/-!
Grids of keys. A key is a unified key text, or a reference to one of the 36 positions of the core.

The core has eight rows: three rows of the left hand, three of the right hand, the left thumbs and
the right thumbs. Its positions are numbered row by row across both hands:

    0 to 9    top row, left then right
    10 to 19  home row
    20 to 29  bottom row
    30 to 35  thumbs
-/

namespace Keymap

inductive Entry where
  | key (code : String)
  | position (index : Nat)
  deriving DecidableEq, Repr, Inhabited

namespace Entry

def text : Entry → String
  | .key code => code
  | .position index => s!"\x7b'_ref': 'L36', 'index': {index}\x7d"

def toDocument : Entry → Document
  | .key code => .text code
  | .position index => .record [("_ref", "L36"), ("index", .whole index)]

/-- The digits in `L36_<digits>`; a line feed may follow them. -/
def positionDigits? (code : String) : Option String :=
  if Text.startsWith code "L36_" then
    let rest := code.toList.drop 4
    let digits := rest.takeWhile Text.isDecimal
    let after := rest.dropWhile Text.isDecimal
    if digits.isEmpty then none
    else if after = [] ∨ after = ['\n'] then some (String.ofList digits)
    else none
  else none

def ofText (code : String) : Result Entry :=
  match positionDigits? code with
  | none => .ok (.key code)
  | some digits =>
    match Decimal.readInt digits with
    | .error reason => .error (.malformed (reason.message (Text.quote digits)))
    | .ok n =>
      if n > 35 then invalid s!"L36 index out of range: {n} (must be 0-35)"
      else .ok (.position n.toNat)

/-- Cells that are not texts are keys of that spelling: `1` is the key `"1"`. -/
def ofDocument : Document → Result Entry
  | .text code => ofText code
  | d => .ok (.key d.toText)

end Entry

structure KeyGrid where
  rows : List (List Entry)
  deriving DecidableEq, Repr, Inhabited

namespace KeyGrid

def rowOfDocument (row : Document) : Result (List Entry) := do
  (← row.members).mapM Entry.ofDocument

def ofDocument (rows : Document) : Result KeyGrid := do
  return ⟨← (← rows.members).mapM rowOfDocument⟩

/-- All keys in one list. Eight rows are a core and are read row by row across both hands; otherwise
the rows follow one another. -/
def flatten (grid : KeyGrid) : List Entry :=
  match grid.rows with
  | [l₀, l₁, l₂, r₀, r₁, r₂, thumbsLeft, thumbsRight] =>
    l₀ ++ r₀ ++ l₁ ++ r₁ ++ l₂ ++ r₂ ++ thumbsLeft ++ thumbsRight
  | rows => rows.flatten

def leftHand (grid : KeyGrid) : List (List Entry) :=
  grid.rows.take 3

def rightHand (grid : KeyGrid) : List (List Entry) :=
  (grid.rows.drop 3).take 3

def row (grid : KeyGrid) (i : Nat) : Result (List Entry) :=
  match grid.rows[i]? with
  | some row => .ok row
  | none => .error (.outOfRange "list index out of range")

def byPosition (core : KeyGrid) : Result (List Entry) := do
  let l₀ ← core.row 0
  let r₀ ← core.row 3
  let l₁ ← core.row 1
  let r₁ ← core.row 4
  let l₂ ← core.row 2
  let r₂ ← core.row 5
  return l₀ ++ r₀ ++ l₁ ++ r₁ ++ l₂ ++ r₂ ++ (← core.row 6) ++ (← core.row 7)

def thumbsLeft (grid : KeyGrid) : Result (List Entry) :=
  grid.row 6

def thumbsRight (grid : KeyGrid) : Result (List Entry) :=
  grid.row 7

end KeyGrid

end Keymap
