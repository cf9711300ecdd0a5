namespace Keymap

def splitRows {α : Type} : List Nat → List α → List (List α)
  | [], _ => []
  | w :: ws, xs => xs.take w :: splitRows ws (xs.drop w)

def chunksFrom {α : Type} (size : Nat) : Nat → List α → List (List α)
  | 0, _ => []
  | _, [] => []
  | fuel + 1, x :: xs => (x :: xs).take size :: chunksFrom size fuel ((x :: xs).drop size)

def chunks {α : Type} (size : Nat) (xs : List α) : List (List α) :=
  chunksFrom size xs.length xs

end Keymap
