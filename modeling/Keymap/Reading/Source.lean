import Keymap.Drawing.Config
import Keymap.Reading.Family

namespace Keymap.Reading

def drawnKeycodes : Work Entries := do
  if ← Work.isThere "config/keycodes.yaml" then
    return (← keycodesFile).entries?.getD []
  else return []

def drawnMagic : Work (Option MagicConfig) :=
  tryCatch (do return some (← magicFile)) fun _ => return none

def drawingDirectories : List String :=
  ["docs", "docs/split", "docs/rowstagger", "out/visualizations", "out/visualizations/split",
   "out/visualizations/rowstagger"]

def source : Work Drawing.Source := do
  let families ← families
  let keycodes ← drawnKeycodes
  let magic ← drawnMagic
  drawingDirectories.forM Work.makeDirectories
  return { families, keycodes, magic }

end Keymap.Reading
