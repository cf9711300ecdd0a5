import Keymap.Header.Layers
import Keymap.Workspace

namespace Keymap.Header

def headerPath : String := "users/dario/layers.h"

def configPath : String := "config/keymap.yaml"

def migrate : Work Nat := do
  let w ← get
  Work.say s!"🔍 Reading layers from: {w.shown headerPath}"
  if !(← Work.isThere headerPath) then
    Work.say s!"❌ Error: {w.shown headerPath} not found"
    return 1
  let layers := layers (← Work.readText headerPath)
  Work.say (s!"✅ Extracted {layers.length} layers: " ++ Text.join ", " (layers.map (·.1)))
  let text ← liftM (configText layers.toDocument)
  Work.makeDirectories (Path.parent configPath)
  Work.writeText configPath text
  Work.say s!"✅ Generated: {w.shown configPath}"
  Work.say "\n📝 Next steps:"
  Work.say "   1. Review config/keymap.yaml for accuracy"
  Work.say "   2. Add extensions for larger boards if needed"
  Work.say "   3. Run scripts/generate.py to test generation"
  return 0

end Keymap.Header
