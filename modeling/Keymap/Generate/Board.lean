import Keymap.Generate.Files
import Keymap.Generate.Session

namespace Keymap.Generate

def overlayPath (board : Board) : Result String :=
  match board.keymapFile with
  | .text path => .ok (Path.join "config" path)
  | d => .error (.mismatch s!"unsupported operand type(s) for /: 'PosixPath' and '{d.kind}'")

def boardKeymap (c : Configuration) (board : Board) (found lost : Work Unit) :
    Work KeymapConfig := do
  if board.keymapFile.isPresent then
    let path ← liftM (overlayPath board)
    if ← Work.isThere path then
      found
      Reading.keymapFile (some path)
    else
      lost
      return c.keymap
  else return c.keymap

def compileLayers (verbose : Bool) (board : Board) : List Layer → Run (List CompiledLayer)
  | [] => return []
  | layer :: rest => do
    if ← liftM (includes board layer) then
      Run.sayIf verbose s!"  Compiling layer {layer.title}..."
      let compiled ← Run.compile layer board
      return compiled :: (← compileLayers verbose board rest)
    else
      Run.sayIf verbose s!"  Skipping layer {layer.title} (not in extra_layers)"
      compileLayers verbose board rest

def writeAll (directory : String) (files : List (String × String)) : Work Unit := do
  Work.clear directory
  Work.makeDirectories directory
  for (name, text) in files do
    Work.store (Path.join directory name) text
  let w ← get
  Work.say s!"  📝 Wrote {files.length} files to {w.shown directory}"

def behaviorsPath : String := "zmk/config/dario_behaviors.dtsi"

def behaviorsText : Work (Option String) := do
  if ← Work.isThere behaviorsPath then
    tryCatch (do return some (← Work.readText behaviorsPath)) fun fault => do
      Work.say (Zmk.unreadBehaviors ((← get).shown behaviorsPath) fault)
      return none
  else return none

def writeQmk (c : Configuration) (options : Options) (board : Board) (keymap : KeymapConfig)
    (layers : List CompiledLayer) : Run Unit := do
  let morphs := (← get).compiler.qmkMorphs
  let files ← liftM (qmkFiles c options.comboTraining board layers keymap.layers morphs)
  Run.work do
    writeAll board.outputDirectory files
    Work.store layersHeaderPath (← liftM (layersHeader (layers.map (·.name))))

def writeZmk (c : Configuration) (options : Options) (board : Board)
    (layers : List CompiledLayer) : Run Unit := do
  let morphs := (← get).compiler.zmkMorphs
  let behaviors ← Run.work behaviorsText
  let files ← liftM (zmkFiles c options behaviors board layers morphs)
  Run.work (writeAll board.outputDirectory files)

def describeBoard (board : Board) : Work Unit := do
  Work.say s!"  Board ID: {board.id.toText}"
  Work.say s!"  Firmware: {board.firmware.toDocument.toText}"
  Work.say s!"  Layout size: {board.layoutSize.text}"
  if board.qmkKeyboard.isPresent then Work.say s!"  QMK keyboard: {board.qmkKeyboard.toText}"
  if board.zmkShield.isPresent then Work.say s!"  ZMK shield: {board.zmkShield.toText}"

def writeBoard (c : Configuration) (options : Options) (board : Board) (keymap : KeymapConfig) :
    Run Bool := do
  Run.prepare board
  let layers ← compileLayers options.verbose board keymap.layers
  Run.sayIf options.verbose s!"  Compiled {layers.length} layers"
  match board.firmware with
  | .qmk => writeQmk c options board keymap layers
  | .zmk => writeZmk c options board layers
  | .other name =>
    Run.say s!"❌ Unknown firmware: {name.toText}"
    return false
  Run.say s!"✅ Generated keymap for {board.name.toText}"
  return true

def reportFailure (board : Board) (fault : Fault) : Run Bool := do
  match fault with
  | .invalid message => Run.say s!"❌ Validation error for {board.name.toText}: {message}"
  | fault => Run.say s!"❌ Error generating keymap for {board.name.toText}: {fault.message}"
  return false

/-- Generates for the board with the given id. Faults in its own keymap file or in one-shot keys end
the session; any later fault is printed and only this board fails. -/
def board (c : Configuration) (options : Options) (id : Document) : Run Bool := do
  match c.inventory.find? id with
  | none =>
    Run.say s!"❌ Board '{id.toText}' not found in config/boards.yaml"
    return false
  | some board =>
    Run.say s!"\n🔨 Generating keymap for {board.name.toText}..."
    if options.verbose then Run.work (describeBoard board)
    let file := board.keymapFile.toText
    let keymap ← Run.work (boardKeymap c board
      (Work.say s!"  📋 Loading board-specific keymap: {file}")
      (Work.say s!"⚠️  Warning: Board specifies keymap_file '{file}' but file not found"))
    let keymap ← liftM (OneShot.addShadows keymap)
    tryCatch (writeBoard c options board keymap) (reportFailure board)

end Keymap.Generate
