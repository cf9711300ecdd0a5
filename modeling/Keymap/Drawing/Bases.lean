import Keymap.Drawing.Convert
import Keymap.Drawing.Layers

namespace Keymap.Drawing

def baseFileName (base : String) : String :=
  Text.lower (Text.replace "BASE_" "" base)

def addMagicTo (s : Source) (base path : String) : Work Unit := do
  let svg ← Work.readText path
  let extended ← liftM (addMagic s.keycodes s.magic (.text svg) (.text base))
  Work.writeText path extended.toText

def familyLayers (s : Source) (base : String) (layers : List Layer) (starts : List String) :
    List Layer :=
  let family := (s.families.all.lookup base).getD []
  starts.filterMap fun start =>
    (family.find? fun name => Text.startsWith name start).bind fun name => findLayer? layers name

def pages (s : Source) (base : String) (layers : List Layer) : List Layer × List Layer :=
  ((findLayer? layers base).toList ++ familyLayers s base layers ["SYM", "NUM"],
    familyLayers s base layers ["NAV", "MEDIA", "FUN"])

def printFamily (s : Source) (base : String) (layers : List Layer) (size : LayoutSize) :
    Work (Option String) := do
  let name := baseFileName base
  let (front, back) := pages s base (layersByName layers)
  let first : LayerDrawing := { layers := front, size, name, suffix := "_print1", paper := true }
  let second : LayerDrawing :=
    { layers := back, size, name, suffix := "_print2", context := some layers, paper := true }
  let firstPath ← first.draw s
  let secondPath ← second.draw s
  if let some path := secondPath then addMagicTo s base path
  let drawings := firstPath.toList ++ secondPath.toList
  let printed ← combine name drawings
  if printed.isSome then drawings.forM Work.discardFile
  Work.discardFile first.keymapPath
  Work.discardFile second.keymapPath
  return printed

def printSingle (s : Source) (base : String) (layer : Layer) (size : LayoutSize) :
    Work (Option String) := do
  let name := baseFileName base
  let drawing : LayerDrawing :=
    { layers := [layer], size, name, suffix := "_base", paper := true }
  attemptFile s!"Single-layer PDF generation failed for {name}" do
    discard needConverter
    match ← drawing.draw s with
    | none => throw (.lacking "NoneType" "read_text")
    | some drawn =>
      let svg ← Work.readText drawn
      let path := Path.join splitDirectory s!"{name}_base.pdf"
      let extended ← liftM (addMagic s.keycodes s.magic (.text svg) (.text base))
      convertTo landscape extended.toText path
      Work.discardFile drawn
      Work.discardFile drawing.keymapPath
      Work.say ("    📄 " ++ Path.fileName path)
      return path

def drawBase (s : Source) (base : String) (names : List String) (size : LayoutSize) :
    Work Unit := do
  let keymap ← Reading.keymapFile
  match names.filterMap (findLayer? keymap.layers) with
  | [] => return
  | layer :: layers =>
    let drawing : LayerDrawing := { layers := layer :: layers, size, name := baseFileName base }
    if let some path := ← drawing.draw s then addMagicTo s base path
    discard (printFamily s base (layer :: layers) size)
    discard (printSingle s base layer size)
    Work.discardFile drawing.keymapPath

def drawBases (s : Source) : Work Unit := do
  if !(← isAvailable) then
    Work.say "  ⚠️  keymap-drawer not available, skipping visualization"
    return
  Work.say "📊 Generating keymap visualizations..."
  for (base, names) in s.families.all do
    Work.say s!"  📊 Generating visualization for {base}"
    drawBase s base names .split42
  Work.say s!"✅ Generated {s.families.all.length} base layer visualizations"

end Keymap.Drawing
