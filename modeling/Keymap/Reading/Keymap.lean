import Keymap.Layer

namespace Keymap.Reading

def requireSection (d : Document) (name message : String) : Result Document := do
  if !d.isPresent then invalid message
  if !(← d.has name) then invalid message
  d.field name

/-- What a keymap file holds once and uses in several places: layers that are one, and lists of keys. -/
structure Sharing where
  layers : List (List Field) := []
  lists : List (List KeyPlace) := []
  deriving Inhabited

/-- The lists of the layers that an overlay adds stay shared among them. -/
def Sharing.under (lower : Sharing) (d : Document) (upper : Sharing) : Sharing :=
  let below := ((d.get? "layers").bind Document.entries?).getD []
  { lower with lists := lower.lists ++ upper.lists.map fun places =>
      places.filter fun place => !below.any fun e => e.1.text == place.1 }

/-- A full layout that is put into a layer shows in every layer that is one with it. -/
def overlayLayer (groups : List (List Field)) (layers : Document) (name : Field) (upper : Document) :
    Result Document := do
  if ← layers.holds name.toDocument then
    if ← upper.has "full_layout" then
      let full ← upper.field "full_layout"
      let changed ← (← layers.field name).set "full_layout" full
      (sharers groups name).foldlM (fun layers other => layers.set other changed) layers
    else return layers
  else layers.set name upper

def overlayEntries (groups : List (List Field)) (layers : Document) : Entries → Result Document
  | [] => .ok layers
  | (name, upper) :: rest => do
    overlayEntries groups (← overlayLayer groups layers name upper) rest

def applyOverlay (groups : List (List Field)) (layers : Document) (overlay : Option Document) :
    Result Document := do
  match overlay with
  | none => return layers
  | some d =>
    if !d.isPresent then return layers
    if !(← d.has "layers") then return layers
    overlayEntries groups layers (← (← d.field "layers").entries)

def core (name : String) (d : Document) : Result KeyGrid := do
  match d with
  | .list _ => KeyGrid.ofDocument d
  | .record entries =>
    match entries.lookup (.word "left"), entries.lookup (.word "right"),
        entries.lookup (.word "thumbs") with
    | some left, some right, some thumbs =>
      KeyGrid.ofDocument (← (← left.append right).append thumbs)
    | _, _, _ =>
      invalid s!"Layer {name}: 'core' dict must have 'left', 'right', and 'thumbs' sections"
  | _ => invalid s!"Layer {name}: 'core' must be a list or dict"

def fullLayout (name : String) (d : Document) : Result KeyGrid := do
  match d with
  | .list items => return ⟨[← items.mapM Entry.ofDocument]⟩
  | _ => invalid s!"Layer {name}: 'full_layout' must be a list"

def extensions (d : Document) : Result (List Extension) := do
  (← d.entries).mapM fun (kind, keys) => do
    let extension : Extension := ⟨kind, keys⟩
    extension.validate
    return extension

def optional {α : Type} (d : Document) (name : String) (read : Document → Result α) :
    Result (Option α) := do
  if ← d.has name then return some (← read (← d.field name)) else return none

def layer (name : Field) (d : Document) : Result Layer := do
  let core ← optional d "core" (core name.text)
  let full ← optional d "full_layout" (fullLayout name.text)
  if core.isNone && full.isNone then
    invalid s!"Layer {name.text}: must have either 'core' or 'full_layout'"
  let extensions ← optional d "extensions" extensions
  return { name := name.toDocument, core, fullLayout := full, extensions := extensions.getD [] }

def checkExtensions (layers : List Layer) : Result Unit :=
  let kinds := (layers.flatMap fun l => l.extensions.map (·.kind)).eraseDups
  layers.forM fun layer => do
    let absent := kinds.filter fun k => !(layer.extensions.map (·.kind)).contains k
    if !absent.isEmpty then
      invalid (s!"Layer {layer.title}: missing extension definitions for " ++
        Field.setText absent ++
        ". All layers must define the same extension types. Define them with NONE values if unused.")

def keymap (d : Document) (overlay : Option Document) (shared : Sharing := {}) : Result KeymapConfig := do
  let layers ← requireSection d "layers" "keymap.yaml must contain 'layers' section"
  let layers ← applyOverlay shared.layers layers overlay
  let layers ← (← layers.entries).mapM fun (name, l) => layer name l
  checkExtensions layers
  let metadata ← d.findD "metadata" (.record [])
  let behaviors ← Behaviors.ofDocument (← d.findD "behaviors" (.record []))
  let config : KeymapConfig := { layers, behaviors, metadata, shared := shared.lists }
  config.validate
  return config

end Keymap.Reading
