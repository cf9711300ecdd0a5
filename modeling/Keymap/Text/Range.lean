/-!
Character classes as lists of code point ranges, and case mappings as shifted runs.
-/

namespace Keymap.Text

def numbers (s : String) : List Nat :=
  (s.splitOn "\n").flatMap fun row => (row.splitOn " ").filterMap String.toNat?

/-- Ranges from `start` on, written as the gap before each and the distance from its first to its
last code point. -/
def spacedRanges (start : Nat) : List Nat → List (Nat × Nat)
  | gap :: size :: rest =>
    (start + gap, start + gap + size) :: spacedRanges (start + gap + size + 1) rest
  | _ => []

def inRanges (ranges : List (Nat × Nat)) (c : Char) : Bool :=
  ranges.any fun r => r.1 ≤ c.toNat && c.toNat ≤ r.2

def inRun (first last step n : Nat) : Bool :=
  first ≤ n && n ≤ last && (n - first) % step == 0

def shiftIn (runs : List (Nat × Nat × Nat × Int)) (c : Char) : Option Char :=
  (runs.find? fun r => inRun r.1 r.2.1 r.2.2.1 c.toNat).map fun r =>
    Char.ofNat ((c.toNat : Int) + r.2.2.2).toNat

/-- The runs of the shifted characters, shifted back. -/
def reverseRuns (runs : List (Nat × Nat × Nat × Int)) : List (Nat × Nat × Nat × Int) :=
  runs.map fun (first, last, step, shift) =>
    (((first : Int) + shift).toNat, ((last : Int) + shift).toNat, step, -shift)

end Keymap.Text
