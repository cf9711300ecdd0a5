import Keymap.Family
import Keymap.Reading.Files

namespace Keymap.Reading

def families : Work Families := do
  let config ← keymapFile
  let metadata ← liftM ((← Work.readDocument keymapPath).findD "base_layers" (.record []))
  let families : Families := ⟨config.layers, metadata⟩
  families.warnings.forM Work.say
  return families

end Keymap.Reading
