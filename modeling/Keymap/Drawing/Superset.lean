import Keymap.Board
import Keymap.Layer

namespace Keymap.Drawing

def slice {α : Type} (keys : List α) (i j : Nat) : List α :=
  (keys.drop i).take (j - i)

/-- Three rows of `width` keys for each hand and three thumb keys for each hand, from hand by hand to
row by row. -/
def interleave {α : Type} (width : Nat) (keys : List α) : List α :=
  let left := fun row => slice keys (width * row) (width * (row + 1))
  let right := fun row => slice keys (width * (row + 3)) (width * (row + 4))
  left 0 ++ right 0 ++ left 1 ++ right 1 ++ left 2 ++ right 2 ++
    slice keys (6 * width) (6 * width + 3) ++ slice keys (6 * width + 3) (6 * width + 6)

def rowByRow {α : Type} (size : LayoutSize) (keys : List α) : List α :=
  match size with
  | .split36 => interleave 5 keys
  | .split42 => interleave 6 keys
  | _ => keys

def reordered (size : LayoutSize) (keys : Document) : Result Document := do
  match size with
  | .split36 | .split42 =>
    let cells := rowByRow size (← keys.sequence)
    match keys with
    | .text _ => return .text (String.join (cells.map Document.toText))
    | _ => return .list cells
  | _ => return keys

def coreCells (core : KeyGrid) : Result (List Document) := do
  let hands := (core.rows.take 6).flatten
  let left ← core.row 6
  let right ← core.row 7
  return (hands ++ left ++ right).map Entry.toDocument

def withColumns (left right : Document) (cells : List Document) : Result (List Document) := do
  let row := fun i => slice cells (5 * i) (5 * i + 5)
  let leftRow := fun (i : Nat) => return (← left.item i) :: row i
  let rightRow := fun (i : Nat) => return row (i + 3) ++ [← right.item i]
  let leftRows ← [0, 1, 2].mapM leftRow
  let rightRows ← [0, 1, 2].mapM rightRow
  return leftRows.flatten ++ rightRows.flatten ++ slice cells 30 36

def noColumn : Document :=
  .list ["NONE", "NONE", "NONE"]

def extensionFor (layer : Layer) (size : LayoutSize) : Result (Option Extension) := do
  if layer.extensions.isEmpty then return none
  let _ ← size.toDocument.asField
  match size with
  | .split42 => return layer.extension? "3x6_3"
  | _ => return none

def superset (layer : Layer) (size : LayoutSize) : Result (List Document) := do
  match layer.core with
  | none => .error (.lacking "NoneType" "rows")
  | some core =>
    let cells ← coreCells core
    match ← extensionFor layer size with
    | some e =>
      let left ← e.keys.findD "outer_pinky_left" noColumn
      let right ← e.keys.findD "outer_pinky_right" noColumn
      withColumns left right cells
    | none => return cells

def drawnCells (layer : Layer) (size : LayoutSize) : Result (List Document) := do
  return rowByRow size (← superset layer size)

def drawnCodes (layer : Layer) (size : LayoutSize) : Result (List String) := do
  (← drawnCells layer size).mapM fun cell => cell.word "startswith"

def places (starts : List String) (layer : Layer) (size : LayoutSize) : Result (List Nat) := do
  let codes ← drawnCodes layer size
  return codes.zipIdx.filterMap fun (code, i) =>
    if starts.any (Text.startsWith code) then some i else none

end Keymap.Drawing
