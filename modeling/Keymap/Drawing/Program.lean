import Keymap.Drawing.Config
import Keymap.Drawing.KeymapFile
import Keymap.Drawing.Markup
import Keymap.Drawing.Marker
import Keymap.Drawing.Settings

namespace Keymap.Drawing

def drawingDirectory : String := "out/visualizations"

def temporaryName : String := "<TMP>"

def programName : String := "keymap"

def programError : String := "tool failed"

def isAvailable : Work Bool := do
  return (← get).tools.drawer.isSome

def program : Work Drawer := do
  match (← get).tools.drawer with
  | some drawer => return drawer
  | none => throw (.atPath .absent programName)

def outputOf (output : Option String) (arguments : List String) : Work String :=
  match output with
  | some text => return Text.unixLines text
  | none => throw (.commandFailed (programName :: "-c" :: temporaryName :: arguments) programError)

def parseKeymap (config : Document) (path : String) (keymap : KeymapFile) : Work String := do
  let drawer ← program
  Work.record (.parse config keymap.toDocument)
  outputOf drawer.parse ["parse", "-q", (← get).shown path]

def drawKeymap (config : Document) (keymap : String) : Work String := do
  let drawer ← program
  Work.record (.draw config keymap)
  outputOf drawer.draw ["draw", "-"]

def nameLayers (names : List String) (keymap : String) : String :=
  names.zipIdx.foldl (fun text (name, i) => Text.replace s!"L{i}:" s!"{name}:" text) keymap

def drawingConfig (s : Source) (size : LayoutSize) (drawn : Option (List Layer)) :
    Work Document := do
  let settings ← Work.readDocument settingsPath
  let config ← liftM (config s settings size drawn)
  Work.temporary s!"keymap-drawer-{size.text}-00000000.yaml"
  return config

def drawFile (s : Source) (size : LayoutSize) (drawn : Option (List Layer))
    (names : Result (List String)) (path : String) (keymap : KeymapFile) : Work String := do
  Work.writeText path keymap.text
  let config ← drawingConfig s size drawn
  let parsed ← parseKeymap config path keymap
  let svg ← drawKeymap config (expandMarkers (nameLayers (← liftM names) parsed))
  let labelled ← liftM (formatLabels size svg)
  return (← liftM (s.families.showNames (.text labelled))).toText

def reportDrawing (subject : String) (fault : Fault) : Work Unit := do
  match fault with
  | .commandFailed _ output =>
    Work.say s!"  ⚠️  Visualization generation failed{subject}: {fault.message}"
    if !output.isEmpty then Work.say s!"     {output}"
  | fault => Work.say s!"  ⚠️  Unexpected error during visualization{subject}: {fault.message}"

def attempt (subject : String) (draw : Work String) : Work (Option String) :=
  tryCatch (do return some (← draw)) fun fault => do
    reportDrawing subject fault
    return none

end Keymap.Drawing
