import Keymap.Drawing.Program

namespace Keymap.Drawing

def boardLayerNames : List String :=
  ["COLEMAK", "GALLIUM", "NIGHT", "NUM", "SYM", "NAV", "MEDIA", "FUN"]

def boardFileName (board : Board) : Result String := do
  return Text.replace "/" "_" (← board.id.word "replace") ++ "_dario"

def drawBoard (s : Source) (board : Board) (layers : List CompiledLayer) :
    Work (Option String) := do
  if !(← isAvailable) then return none
  let name ← liftM (boardFileName board)
  attempt "" do
    let svg ← drawFile s board.layoutSize none (.ok boardLayerNames)
      s!"{drawingDirectory}/{name}.json" (.ofCompiled board layers)
    let path := s!"{drawingDirectory}/{name}.svg"
    Work.writeText path svg
    return path

structure LayerDrawing where
  layers : List Layer
  size : LayoutSize
  name : Option String := none
  suffix : Document := .text ""
  context : Option (List Layer) := none
  paper : Bool := false
  deriving Inhabited

namespace LayerDrawing

def fileName (d : LayerDrawing) : String :=
  d.name.getD s!"layout_{d.size.text}" ++ d.suffix.toText

def keymapPath (d : LayerDrawing) : String :=
  Path.join drawingDirectory s!"{d.fileName}.json"

def path (d : LayerDrawing) : String :=
  Path.join (if d.suffix.isPresent then drawingDirectory else "docs/split") s!"{d.fileName}.svg"

def draw (s : Source) (d : LayerDrawing) : Work (Option String) :=
  attempt s!" for {d.fileName}" do
    let keymap ← liftM (KeymapFile.ofLayers s.keycodes d.size d.layers)
    let svg ← drawFile s d.size (some (d.context.getD d.layers))
      (.ok (d.layers.map (·.title))) d.keymapPath keymap
    Work.writeText d.path (← liftM (addInlineStyles d.paper svg))
    Work.say ("    ✅ " ++ Path.fileName d.path)
    return d.path

end LayerDrawing

def drawCoded (s : Source) (size : LayoutSize) (board : Board) (layers : Document)
    (suffix : String) (final : Bool) : Work (Option String) :=
  attempt s!" for {size.text}{suffix}" do
    let name := s!"layout_{size.text}{suffix}"
    let layers ← liftM layers.members
    let cells := layers.map fun layer => do (← layer.field "keycodes").members
    let keymap ← liftM (KeymapFile.ofCells s.keycodes board size cells)
    let names := layers.mapM fun layer => do return (← layer.field "name").toText
    let svg ← drawFile s size none names (Path.join drawingDirectory s!"{name}.json") keymap
    let path := Path.join (if final then "docs" else drawingDirectory) s!"{name}.svg"
    Work.writeText path svg
    Work.say ("    ✅ " ++ Path.fileName path)
    return path

end Keymap.Drawing
