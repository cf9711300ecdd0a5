import Keymap.Drawing.Convert
import Keymap.Drawing.Layers

namespace Keymap.Drawing

structure Page where
  width : Float
  height : Float

namespace Page

def letter : Page := ⟨612, 792⟩

def letterLandscape : Page := ⟨792, 612⟩

def margin : Float := 36

end Page

structure Placement where
  scale : Float
  x : Float
  y : Float

def lesser (a b : Float) : Float :=
  if b < a then b else a

def measure (d : Document) : Result Float :=
  match d.number? with
  | some (.decimal x) => .ok x.toFloat
  | some (.whole n) =>
    match Decimal.Double.ofInt? n with
    | some x => .ok x.toFloat
    | none => .error (.overflow "int too large to convert to float")
  | none => .error (.mismatch s!"unsupported operand type(s) for /: 'float' and '{d.kind}'")

def quotient (a b : Float) : Result Float :=
  if b == 0 then .error .divisionByZero else .ok (a / b)

def Page.place (p : Page) (limit : Float) (drawing : Extent) : Result Placement := do
  let room := p.width - 2 * Page.margin
  let headroom := p.height - 2 * Page.margin
  let width ← measure drawing.1
  let across ← quotient room width
  let height ← measure drawing.2
  let upward ← quotient headroom height
  let scale := lesser (lesser across upward) limit
  return { scale, x := Page.margin + (room - width * scale) / 2
           y := Page.margin + (headroom - height * scale) / 2 }

def loadDrawing (path : String) : Work (Option Extent) := do
  return (← get).tools.drawings.lookup (Path.fileName path)

def startPages (path : String) (p : Page) : Work Unit :=
  Work.record (.canvas path (.ofFloat p.width) (.ofFloat p.height))

def placeOn (p : Page) (limit : Float) (path : String) (drawing : Extent) : Work Unit := do
  let placed ← liftM (p.place limit drawing)
  Work.record (.place path (.ofFloat placed.scale) (.ofFloat placed.x) (.ofFloat placed.y))

def savePages (path : String) (drawings : Nat) : Work Unit := do
  Work.record .save
  Work.writeText path s!"reportlab {drawings}\n"

/-- Places each drawing on a page of its own; drawings that cannot be loaded are left out. -/
def placeAll (size : LayoutSize) (drawings : List String) : Work String := do
  let path := Path.join splitDirectory s!"layout_{size.text}_print.pdf"
  startPages path .letter
  let placed ← drawings.filterM fun drawing => do
    match ← loadDrawing drawing with
    | none =>
      let w ← get
      Work.say s!"  ⚠️  Failed to load SVG: {w.shown drawing}"
      return false
    | some loaded =>
      placeOn .letter 1 drawing loaded
      Work.record .page
      return true
  savePages path placed.length
  return path

def placePrimary (size : LayoutSize) (drawing : String) : Work Unit :=
  let place : Work Unit := do
    match ← loadDrawing drawing with
    | none => return
    | some loaded =>
      let path := Path.join splitDirectory s!"primary_{size.text}_landscape.pdf"
      startPages path .letterLandscape
      placeOn .letterLandscape 1.5 drawing loaded
      savePages path 1
      Work.say ("    📄 " ++ Path.fileName path)
  tryCatch place fun fault => Work.say s!"  ⚠️  Failed to generate primary PDF: {fault.message}"

def primaryConfig (s : Source) (size : LayoutSize) (base : Document) : Work Document := do
  let style ← liftM (styleSheet s.layers size (.list [base]) none)
  let settings ← Work.readDocument settingsPath
  let styled ← liftM (setDrawing settings "svg_extra_style" (.text style))
  let made ← liftM (setOrtho styled size)
  Work.temporary s!"keymap-primary-{size.text}-00000000.yaml"
  return made.sorted

def primaryLabel : LayoutSize → LabelStyle
  | .split36 => ⟨448, 112, 28⟩
  | _ => ⟨420, 133, 28⟩

def needLayer (layers : List Layer) (name : Document) : Result Layer := do
  match ← lookupLayer layers name with
  | some layer => return layer
  | none => throw (.noEntry name)

def copyText (path text : String) : Work Unit := do
  if ← Work.isDirectory path then Work.writeText s!"{path}/{Path.fileName path}" text
  else Work.writeText path text

def drawPrimary (s : Source) (size : LayoutSize) (board : Board) (base : Document) :
    Work (Option String) :=
  attemptFile "Failed to generate primary base layer" do
    let layer ← liftM (needLayer s.layers base)
    let keymap ← liftM (KeymapFile.ofCells s.keycodes board size [superset layer size])
    let name := s!"primary_{size.text}"
    let file := Path.join drawingDirectory s!"{name}.json"
    Work.writeText file keymap.text
    let config ← primaryConfig s size base
    let shown := Text.replace "BASE_" "" layer.title
    let parsed ← parseKeymap config file keymap
    let svg ← drawKeymap config (expandMarkers (nameLayers [shown] parsed))
    let svg := placeLabels (primaryLabel size) (Text.replace layer.title shown svg)
    let path := Path.join "docs/split" s!"{name}.svg"
    Work.writeText path svg
    copyText s!"{splitDirectory}/{Path.fileName path}" svg
    placePrimary size path
    Work.remove file
    Work.say s!"    📄 {Path.fileName path} ({shown} only)"
    return path

/-- Drawings of a whole layout size are not made. -/
def refuseSize {α : Type} : Result α :=
  .error (.mismatch "a drawing of a layout size takes no board")

def bySize (boards : List Board) : Result (List (LayoutSize × List Board)) := do
  let sizes := boards.map fun b => b.layoutSize.toDocument
  sizes.forM fun d => do let _ ← d.asField
  return (distinct sizes).map fun d =>
    (.ofDocument d, boards.filter fun b => b.layoutSize.toDocument.same d)

def drawSizes (boards : List Board) : Work Unit := do
  if !(← isAvailable) then
    Work.say "  ⚠️  keymap-drawer not available, skipping visualization"
    return
  let keymap ← Reading.keymapFile
  for (size, group) in ← liftM (bySize boards) do
    match size with
    | .custom _ =>
      Work.say s!"  ⏭️  Skipping {size.text} layout (custom layouts not yet supported)"
    | size => do
      discard (liftM size.isKnown)
      Work.say s!"  📊 Generating visualization for {size.text} layout ({group.length} boards)"
      for layer in keymap.layers do
        if layer.fullLayout.isNone && !layer.name.isWord "FUN" then
          discard (liftM (superset layer size))
      liftM refuseSize

end Keymap.Drawing
