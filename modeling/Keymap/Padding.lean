import Keymap.Board
import Keymap.Layer

namespace Keymap

structure Column (α : Type) where
  top : α
  home : α
  bottom : α
  deriving Repr

namespace Column

def const {α : Type} (a : α) : Column α := ⟨a, a, a⟩

end Column

namespace Padding

def noKey : String := "NONE"

variable {α : Type}

def coreRow (keys : List α) (row : Nat) : List α :=
  (keys.drop (10 * row)).take 10

def thumbs (keys : List α) : List α :=
  (keys.drop 30).take 6

def to38 (left right : α) (keys : List α) : List α :=
  coreRow keys 0 ++ coreRow keys 1 ++ (left :: coreRow keys 2 ++ [right]) ++ thumbs keys

def to42 (left right : Column α) (keys : List α) : List α :=
  (left.top :: coreRow keys 0 ++ [right.top]) ++
    (left.home :: coreRow keys 1 ++ [right.home]) ++
    (left.bottom :: coreRow keys 2 ++ [right.bottom]) ++ thumbs keys

/-- 58 keys: a number row, outer columns, and two more thumb keys for each hand, all without a
key. -/
def to58 (none : α) (keys : List α) : List α :=
  List.replicate 12 none ++
    (none :: coreRow keys 0 ++ [none]) ++
    (none :: coreRow keys 1 ++ [none]) ++
    (none :: coreRow keys 2 ++ [none]) ++
    (List.replicate 2 none ++ thumbs keys ++ List.replicate 2 none)

/-- 58 keys from 42: a number row, two inner keys in the bottom row and an outer thumb key for each
hand, all without a key. -/
def to58From42 (none : α) (keys : List α) : List α :=
  List.replicate 12 none ++ keys.take 24 ++
    ((keys.drop 24).take 6 ++ List.replicate 2 none ++ (keys.drop 30).take 6) ++
    (none :: (keys.drop 36).take 6 ++ [none])

def columns (layer : Layer) : Result (Document × Document) := do
  let absent := Document.list (List.replicate 3 (.text noKey))
  match layer.extension? "3x6_3" with
  | none => return (absent, absent)
  | some e =>
    return (← e.keys.findD "outer_pinky_left" absent, ← e.keys.findD "outer_pinky_right" absent)

def columnKey (column : Document) (row : Nat) : Result String :=
  (column.item row).map Document.toText

def padTo42 (layer : Layer) (keys : List String) : Result (List String) := do
  let (left, right) ← columns layer
  let outer ← [0, 1, 2].mapM fun row => do
    return (← columnKey left row, ← columnKey right row)
  match outer with
  | [(l₀, r₀), (l₁, r₁), (l₂, r₂)] => return to42 ⟨l₀, l₁, l₂⟩ ⟨r₀, r₁, r₂⟩ keys
  | _ => return keys

/-- The outer key of 38-key boards is the middle one of the column. -/
def middleKey (column : Document) : Result String := do
  if (← column.length) > 1 then columnKey column 1 else return noKey

def padTo38 (layer : Layer) (keys : List String) : Result (List String) := do
  let (left, right) ← columns layer
  let leftKey ← middleKey left
  return to38 leftKey (← middleKey right) keys

def pad (board : Board) (layer : Layer) (keys : List String) : Result (List String) :=
  match board.layoutSize with
  | .split36 => .ok keys
  | .totem38 => padTo38 layer keys
  | .split42 => padTo42 layer keys
  | .custom "58_from_3x6" => (padTo42 layer keys).map (to58From42 noKey)
  | .custom "58" => .ok (to58 noKey keys)
  | .custom tag =>
    invalid (s!"Board {board.id.toText} has custom layout size custom_{tag}. " ++
      "Custom layouts must use full_layout with L36(n) references, not core padding. " ++
      "Ensure the layer has a full_layout defined in the board-specific keymap file.")
  | .unknown (.text _) => .ok keys
  | .unknown d => .error (.lacking d.kind "startswith")

def extensionKeys (e : Extension) : Result (List Document) := do
  let part := fun (name : String) => do
    if ← e.keys.has name then
      match ← e.keys.field name with
      | .list items => return items
      | d => return [d]
    else return []
  return (← part "outer_pinky_left") ++ (← part "outer_pinky_right")

end Padding

end Keymap
