import Keymap.Reading.Tables
import Keymap.Workspace

namespace Keymap.Reading

def keymapPath : String := "config/keymap.yaml"

def keymapFile (overlay : Option String := none) : Work KeymapConfig := do
  modify fun w => { w with mode := .words }
  let d ← Work.readDocument keymapPath
  let shared ← Work.readSharing keymapPath
  match overlay with
  | none => liftM (keymap d none shared)
  | some path =>
    if ← Work.isThere path then
      let upper ← Work.readDocument path
      liftM (keymap d (some upper) (shared.under d (← Work.readSharing path)))
    else liftM (keymap d none shared)

def boardsFile : Work Inventory := do
  liftM (boards (← Work.readDocument "config/boards.yaml"))

def aliasesFile : Work Aliases := do
  liftM (aliases (← Work.readDocument "config/aliases.yaml"))

def combosFile : Work (List Combo) := do
  liftM (combos (← Work.readDocument keymapPath))

def magicFile : Work MagicConfig := do
  liftM (magic (← Work.readDocument keymapPath))

def keycodesFile : Work Document := do
  return keycodes (← Work.readDocument "config/keycodes.yaml")

def specialKeycodesFile : Work Document := do
  liftM (specialKeycodes (← Work.readDocument "config/aliases.yaml"))

def rowStaggerDirectory : String := "config/rowstagger"

def rowStaggerFiles : Work (List String) := do
  return (← Work.namesIn rowStaggerDirectory).filter fun name => Text.endsWith name ".yaml"

def rowStaggerFile (name : String) : Work RowStagger := do
  liftM (rowStagger (← Work.readDocument s!"{rowStaggerDirectory}/{name}"))

end Keymap.Reading
