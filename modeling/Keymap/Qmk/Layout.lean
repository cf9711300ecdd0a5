import Keymap.Compile
import Keymap.Rows

namespace Keymap.Qmk

def rowText (indent : Nat) (row : List Document) : Result String := do
  return Text.spaces indent ++ Text.join ", " (← row.mapM (Document.padded 20))

structure LayoutCall where
  name : String
  fingers : List (List Document)
  thumbs : List Document
  thumbIndent : Nat

namespace LayoutCall

def arguments (call : LayoutCall) : List Document :=
  call.fingers.flatten ++ call.thumbs

def lines (call : LayoutCall) : Result (List String) := do
  let fingers ← call.fingers.mapM fun row => do return (← rowText 8 row) ++ ","
  return fingers ++ [← rowText call.thumbIndent call.thumbs]

def render (call : LayoutCall) : Result String := do
  return call.name ++ "(\n" ++ Text.unlines (← call.lines) ++ "\n    )"

end LayoutCall

def split36 (keys : List Document) : Result LayoutCall :=
  if keys.length ≠ 36 then
    .error (.refused s!"Expected 36 keys for 3x5_3 layout, got {keys.length}")
  else .ok {
    name := "LAYOUT_split_3x5_3"
    fingers := splitRows [10, 10, 10] keys
    thumbs := keys.drop 30
    thumbIndent := 30 }

def split42 (keys : List Document) : Result LayoutCall :=
  if keys.length ≠ 42 then
    .error (.refused s!"Expected 42 keys for 3x6_3 layout, got {keys.length}")
  else .ok {
    name := "LAYOUT_split_3x6_3"
    fingers := splitRows [12, 12, 12] keys
    thumbs := keys.drop 36
    thumbIndent := 36 }

/-- Rows of the layouts of particular boards; keys beyond the last row are not written. -/
def customRows (tag : String) (keys : List Document) : List (List Document) :=
  splitRows (if tag = "boaty" then [12, 12, 12, 14, 13] else [12, 12, 12, 14, 8]) keys

/-- Every row ends with a comma but the last, which loses all commas at its end. -/
def customLines : List (List Document) → Result (List String)
  | [] => return []
  | [row] => do return [Text.trimEndBy (· == ',') ((← rowText 8 row) ++ ",")]
  | row :: rows => do
    let line ← rowText 8 row
    return (line ++ ",") :: (← customLines rows)

def customLayout (tag : String) (keys : List Document) : Result String := do
  return "LAYOUT(\n" ++ Text.unlines (← customLines (customRows tag keys)) ++ "\n    )"

def layerText (size : LayoutSize) (layer : CompiledLayer) : Result String := do
  match size with
  | .split42 => (← split42 layer.keycodes).render
  | .custom tag => customLayout tag layer.keycodes
  | .split36 | .totem38 | .unknown (.text _) => (← split36 layer.keycodes).render
  | .unknown d => .error (.lacking d.kind "startswith")

end Keymap.Qmk
