import Keymap.Compile
import Keymap.Document.Json
import Keymap.Drawing.Legend
import Keymap.Drawing.Superset

namespace Keymap.Drawing

structure KeymapFile where
  keyboard : Document
  arrangement : String
  layers : List (List Document)
  deriving Inhabited

namespace KeymapFile

def toDocument (k : KeymapFile) : Document :=
  .record [("keyboard", k.keyboard), ("keymap", "dario"), ("layout", .text k.arrangement),
    ("layers", .list (k.layers.map .list))]

def text (k : KeymapFile) : String :=
  k.toDocument.toIndentedJson 0

def arrangementOf : LayoutSize → String
  | .split36 => "LAYOUT_split_3x5_3"
  | .split42 => "LAYOUT_split_3x6_3"
  | _ => "LAYOUT"

def keyboard42 : Document := "crkbd/rev1"

def keyboard36 : Document := "bastardkb/skeletyl/promicro"

def ofCompiled (board : Board) (layers : List CompiledLayer) : KeymapFile :=
  let (keyboard, arrangement) :=
    match board.firmware, board.layoutSize with
    | .qmk, size => (board.qmkKeyboard, arrangementOf size)
    | _, .split42 => (keyboard42, arrangementOf .split42)
    | _, _ => (board.id, arrangementOf (.unknown .null))
  { keyboard, arrangement
    layers := layers.map fun layer => rowByRow board.layoutSize layer.keycodes }

def drawnLayer (keycodes : Entries) (size : LayoutSize) (cells : List Document) :
    Result (List Document) := do
  return rowByRow size (← cells.mapM (drawnCell keycodes))

def ofLayers (keycodes : Entries) (size : LayoutSize) (layers : List Layer) :
    Result KeymapFile := do
  let keyboard :=
    match size with
    | .split36 => keyboard36
    | _ => keyboard42
  let layers ← layers.mapM fun layer => do drawnLayer keycodes size (← superset layer size)
  return { keyboard, arrangement := arrangementOf size, layers }

def ofCells (keycodes : Entries) (board : Board) (size : LayoutSize)
    (layers : List (Result (List Document))) : Result KeymapFile := do
  let keyboard :=
    match board.firmware, size with
    | .qmk, _ => board.qmkKeyboard
    | _, .split42 => keyboard42
    | _, .split36 => keyboard36
    | _, _ => board.id
  let layers ← layers.mapM fun layer => do drawnLayer keycodes size (← layer)
  return { keyboard, arrangement := arrangementOf size, layers }

end KeymapFile

end Keymap.Drawing
