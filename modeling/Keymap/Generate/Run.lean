import Keymap.Drawing.Bases
import Keymap.Drawing.RowStagger
import Keymap.Generate.Board
import Keymap.Generate.RowStagger
import Keymap.Reading.Source

namespace Keymap.Generate

def precompile (c : Configuration) (board : Board) : Run Unit := do
  let keymap ← Run.work (boardKeymap c board (pure ()) (pure ()))
  discard (compileLayers false board keymap.layers)

def boards (c : Configuration) (options : Options) : List Board → Run (List Bool)
  | [] => return []
  | b :: rest => do
    precompile c b
    let succeeded ← board c options b.id
    return succeeded :: (← boards c options rest)

def separately (step : Work Unit) : Work Bool :=
  ExceptT.mk fun w =>
    let (result, after) := step.run.run { w with mode := .flags }
    (.ok result.isOk, { after with mode := w.mode, log := w.log })

def updaterPath : String := "scripts/update_keymap_drawer_config.py"

def refreshSettings : Work Unit := do
  Work.say s!"\n📝 Updating {Drawing.settingsPath}..."
  if !(← separately Drawing.updateSettings) then
    let w ← get
    let fault := Fault.commandFailed ["python3", w.shown updaterPath] ""
    Work.say s!"⚠️  Warning: Failed to update {Drawing.settingsPath}: {fault.message}"

def drawings : Work Unit := do
  let source ← Reading.source
  if ← Drawing.isAvailable then
    Drawing.drawBases source
    Drawing.drawRowStaggers
  else Work.say "⚠️  keymap-drawer not available, skipping visualization"

def summary (results : List Bool) : Work Unit := do
  let failed := results.count false
  Work.say ("\n" ++ Text.repeated 60 "=")
  Work.say s!"✅ Successfully generated: {results.count true} boards"
  if failed > 0 then Work.say s!"❌ Failed: {failed} boards"
  Work.say (Text.repeated 60 "=")

def all (c : Configuration) (options : Options) : Run Bool := do
  let results ← boards c options c.inventory.boards
  Run.work do
    summary results
    keylayouts options.verbose
    refreshSettings
    drawings
  return !results.contains false

def session {α : Type} (c : Configuration) (run : Run α) : Work α :=
  ExceptT.mk fun workspace =>
    let (result, after) := run.run.run { workspace, compiler := c.compiler }
    (result, after.workspace)

def perform (options : Options) : Work Bool := do
  let c ← Configuration.load options.verbose
  if options.validateOnly then
    Work.say "\n✅ Configuration is valid!"
    return true
  match options.board with
  | some id => if id.isEmpty then session c (all c options) else session c (board c options (.text id))
  | none => session c (all c options)

def report (fault : Fault) : Work Bool := do
  match fault with
  | .invalid message => Work.say s!"\n❌ Configuration error: {message}"
  | .system .absent _ => Work.say s!"\n❌ File not found: {fault.message}"
  | fault => Work.say s!"\n❌ Unexpected error: {fault.message}"
  return false

def run (words : List String) : Work Nat := do
  match Options.read words with
  | .refused => return 2
  | .help =>
    Work.say Options.helpText
    return 0
  | .run options => return if ← tryCatch (perform options) report then 0 else 1

end Keymap.Generate
