import Keymap.Drawing.MagicTable
import Keymap.Drawing.Program

namespace Keymap.Drawing

def splitDirectory : String := "out/visualizations/split"

def rowStaggerOutput : String := "out/visualizations/rowstagger"

def portrait : Format := .pdf 612 792

def landscape : Format := .pdf 792 612

def needConverter : Work Nat := do
  match (← get).tools.converter with
  | some limit => return limit
  | none => throw (.unavailable "cairosvg")

def needMerger : Work Unit := do
  if !(← get).tools.merger then throw (.unavailable "PyPDF2")

def Format.command : Format → String
  | .pdf _ _ => "svg2pdf"
  | .png _ => "svg2png"

def convert (format : Format) (svg : String) (target : Target) : Work String := do
  let limit ← needConverter
  Work.record (.convert format svg target)
  let done := (← get).conversions
  if limit ≤ done then throw .conversionFailed
  modify fun w => { w with conversions := done + 1 }
  return s!"{Format.command format} {done + 1}\n"

def convertTo (format : Format) (svg path : String) : Work Unit := do
  Work.writeText path (← convert format svg (.file path))

def attemptFile (failure : String) (make : Work String) : Work (Option String) :=
  tryCatch (do return some (← make)) fun fault => do
    Work.say s!"  ⚠️  {failure}: {fault.message}"
    return none

def combine (name : String) (drawings : List String) : Work (Option String) :=
  attemptFile "PDF generation failed (SVG output is still available)" do
    discard needConverter
    needMerger
    let pages ← drawings.mapM fun path => do
      convert portrait (← Work.readText path) .temporary
    let path := Path.join splitDirectory s!"{name}.pdf"
    Work.record (.merge pages.length path)
    Work.writeText path (Text.join "" pages)
    Work.say ("    📄 " ++ Path.fileName path)
    return path

def rowStaggerLabel (layout shown : Document) : Result String := do
  let name := if shown.isPresent then shown else layout
  return Text.title (Text.replace "_" " " (← name.word "replace"))

def labelRowStagger (label svg : String) : String :=
  Text.replace "id=\"Base\"" s!"id=\"{label}\""
    (Text.replace ">Base:</text>" s!">{label}</text>" svg)

def rowStaggerDrawing (drawing : String) (layout shown : Document) : Work String := do
  discard needConverter
  let svg ← Work.readText drawing
  return labelRowStagger (← liftM (rowStaggerLabel layout shown)) svg

def rowStaggerPage (drawing : String) (layout shown : Document) : Work (Option String) :=
  attemptFile s!"PDF generation failed for {layout.toText}" do
    let svg ← rowStaggerDrawing drawing layout shown
    let path := Path.join rowStaggerOutput s!"{layout.toText}.pdf"
    convertTo landscape (← liftM (addInlineStyles true svg)) path
    Work.say ("    📄 " ++ Path.fileName path)
    return path

def rowStaggerPicture (drawing : String) (layout shown : Document) : Work (Option String) :=
  attemptFile s!"PNG generation failed for {layout.toText}" do
    let svg ← rowStaggerDrawing drawing layout shown
    let path := Path.join rowStaggerOutput s!"{layout.toText}.png"
    convertTo (.png (.ofFloat 2)) svg path
    Work.say ("    🖼️  " ++ Path.fileName path)
    return path

end Keymap.Drawing
