import Keymap.Compile

namespace Keymap.Zmk

structure Hands where
  left : List Nat
  right : List Nat
  thumbs : List Nat
  deriving DecidableEq, Repr

def span (start stop : Nat) : List Nat :=
  List.range' start (stop - start)

def hands36 : Hands where
  left := span 0 5 ++ span 10 15 ++ span 20 25
  right := span 5 10 ++ span 15 20 ++ span 25 30
  thumbs := span 30 36

def hands42 : Hands where
  left := span 0 6 ++ span 12 18 ++ span 24 30
  right := span 6 12 ++ span 18 24 ++ span 30 36
  thumbs := span 36 42

def hands38 : Hands where
  left := span 0 5 ++ span 10 15 ++ span 20 26
  right := span 5 10 ++ span 15 20 ++ span 26 32
  thumbs := span 32 38

def handsOf : LayoutSize → Hands
  | .split42 => hands42
  | .totem38 => hands38
  | _ => hands36

open Document (Number)

def positionOn42 (p : Number) : Number :=
  if p.isBelow 30 then (((p.floorDiv 10).times 12).sum (p.floorMod 10)).plus 1
  else (p.plus (-30)).plus 36

def shiftOn38 (p : Number) : Int :=
  if p.isBelow 20 then 0 else if p.isBelow 30 then 1 else 2

def positionOn38 (p : Document) : Result Document := do
  let n ← p.comparable "<"
  return match shiftOn38 n with
    | 0 => p
    | shift => (n.plus shift).toDocument

def boardPositions (size : LayoutSize) (positions : Document) : Result Document := do
  match size with
  | .split42 =>
    return .list (← (← positions.members).mapM fun p => do
      return (positionOn42 (← p.comparable "<")).toDocument)
  | .totem38 => return .list (← (← positions.members).mapM positionOn38)
  | _ => return positions

def thumbClusters (keys : Nat) : List Nat × List Nat :=
  if keys ≤ 36 then ([30, 31, 32], [33, 34, 35]) else ([36, 37, 38], [39, 40, 41])

def isMagicBinding (binding : Document) : Result Bool :=
  ["&ak_", "&lt_ak_", "&mt_ak_"].anyM fun s => binding.has s

def isShiftBinding (binding : Document) : Result Bool :=
  ["LSFT", "LSHIFT"].anyM fun s => binding.has s

def hasMagicAndShift (keys : List Document) (positions : List Nat) : Result Bool := do
  let kinds ← (positions.filterMap fun i => keys[i]?).mapM fun binding => do
    return (← isMagicBinding binding, ← isShiftBinding binding)
  return kinds.any (·.1) && kinds.any (·.2)

structure Colocation where
  left : Bool
  right : Bool
  deriving DecidableEq, Repr

def colocation (layer : CompiledLayer) : Result Colocation := do
  let (left, right) := thumbClusters layer.keycodes.length
  let onLeft ← hasMagicAndShift layer.keycodes left
  return ⟨onLeft, ← hasMagicAndShift layer.keycodes right⟩

inductive Hand where
  | left
  | right
  deriving DecidableEq, Repr

/-- Whether a binding has an argument that starts with these characters. Only texts have arguments;
of all else none may be asked for. -/
def hasArgument (binding : Document) (start : String) : Result Bool := do
  if ← binding.has (" " ++ start) then return true
  let _ ← binding.word "endswith"
  return false

def letterHand? (letter : Document) (layer : CompiledLayer) : Result (Option Hand) := do
  let hands := if layer.keycodes.length ≤ 36 then hands36 else hands42
  let capital := Text.upper (← letter.word "upper")
  let holds := fun (i : Nat) =>
    match layer.keycodes[i]? with
    | some binding => hasArgument binding capital
    | none => .ok false
  if ← hands.left.anyM holds then return some .left
  if ← hands.right.anyM holds then return some .right
  return none

end Keymap.Zmk
