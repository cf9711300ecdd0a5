import Keymap.Disk
import Keymap.Path
import Keymap.Reading.Keymap
import Keymap.Reading.Mode

/-!
The workspace that a run reads and changes: files and directories, the texts printed so far, and
what was asked of external programs.
-/

namespace Keymap

inductive Content where
  | text (s : String)
  | document (d : Document) (explicit : Bool := false) (shared : Reading.Sharing := {})
  deriving Inhabited

structure Drawer where
  parse : Option String
  draw : Option String
  deriving Inhabited

abbrev Extent := Document × Document

structure Tools where
  drawer : Option Drawer := none
  /-- How many conversions succeed; every later one fails. -/
  converter : Option Nat := none
  merger : Bool := false
  drawings : List (String × Extent) := []
  deriving Inhabited

inductive Format where
  | pdf (width height : Nat)
  | png (scale : Decimal.Double)
  deriving Inhabited

inductive Target where
  | file (path : String)
  | temporary
  deriving Inhabited

inductive ToolCall where
  | parse (config json : Document)
  | draw (config : Document) (input : String)
  | drawDocument (d : Document)
  | convert (format : Format) (svg : String) (target : Target)
  | merge (pages : Nat) (path : String)
  | canvas (path : String) (width height : Decimal.Double)
  | place (svg : String) (scale x y : Decimal.Double)
  | page
  | save
  deriving Inhabited

structure Workspace where
  root : String
  disk : Disk Content := {}
  log : List String := []
  mode : ReadingMode := .flags
  tools : Tools := {}
  calls : List ToolCall := []
  conversions : Nat := 0
  deriving Inhabited

namespace Workspace

def home (w : Workspace) : Place :=
  Path.names w.root

def shown (w : Workspace) (path : String) : String :=
  Path.join w.root path

def start (w : Workspace) (path : String) : Place :=
  if Path.isAbsolute path then [] else w.home

def ofFiles (root : String) (files : List (String × Content)) : Workspace :=
  let home := Path.names root
  let bare : Disk Content :=
    ⟨(List.range home.length).map fun n => (home.take (n + 1), .directory)⟩
  { root
    disk := files.foldl (fun disk (path, content) => disk.add content (home ++ Path.names path))
      bare }

def lines (w : Workspace) : List String :=
  Text.splitLines (String.join (w.log.map (· ++ "\n")))

def files (w : Workspace) : List (String × Content) :=
  w.disk.files.filterMap fun (place, content) =>
    if w.home.isPrefixOf place then some (Text.join "/" (place.drop w.home.length), content)
    else none

def Content.same : Content → Content → Bool
  | .text a, .text b => a == b
  | .document a x _, .document b y _ => a == b && (x == y || !a.hasFlag)
  | _, _ => false

def changesSince (start w : Workspace) : List (String × Content) :=
  let changed := w.files.filter fun (path, content) =>
    match start.files.lookup path with
    | some old => !Content.same old content
    | none => true
  changed.mergeSort fun a b => decide (a.1 ≤ b.1)

def removedSince (start w : Workspace) : List String :=
  let gone := start.files.filter fun f => (w.files.lookup f.1).isNone
  (gone.map (·.1)).mergeSort fun a b => decide (a ≤ b)

end Workspace

/-- A step of a run. What it did to the workspace stays done if it ends in a fault. -/
abbrev Work := ExceptT Fault (StateM Workspace)

namespace Work

def say (text : String) : Work Unit :=
  modify fun w => { w with log := w.log ++ [text] }

/-- No path holds the character that ends paths outside. -/
def isPath (path : String) : Bool :=
  !path.toList.contains '\x00'

def checkLength (path : String) : Work Unit := do
  let shown := (← get).shown path
  if shown.utf8ByteSize > Disk.longestPath then throw (.atPath .longName shown)

def checkPath (path : String) : Work Unit := do
  if !isPath path then throw (.malformed "embedded null byte")
  checkLength path

def ask {α : Type} (path : String)
    (question : Disk Content → Place → List String → Except SystemCause α) : Work α := do
  checkPath path
  let w ← get
  match question w.disk (w.start path) (Path.names path) with
  | .ok a => return a
  | .error cause => throw (.atPath cause (w.shown path))

def change (path : String)
    (f : Disk Content → Place → List String → Except SystemCause (Disk Content)) : Work Unit := do
  let disk ← ask path f
  modify fun w => { w with disk }

def isThere (path : String) : Work Bool := do
  if !isPath path then return false
  checkLength path
  let w ← get
  match w.disk.walk (w.start path) (Path.names path) with
  | .ok place => return (w.disk.node? place).isSome
  | .error .longName => throw (.atPath .longName (w.shown path))
  | .error _ => return false

def isDirectory (path : String) : Work Bool := do
  let w ← get
  return isPath path && (w.shown path).utf8ByteSize ≤ Disk.longestPath &&
    w.disk.isDirectory (w.start path) (Path.names path)

def read (path : String) : Work Content :=
  ask path Disk.read

/-- Every line ending is read as a line feed. -/
def readText (path : String) : Work String := do
  match ← read path with
  | .text s => return Text.unixLines s
  | .document d _ _ => throw (.mismatch s!"expected a text, got '{d.kind}'")

def readDocument (path : String) : Work Document := do
  match ← read path with
  | .text s =>
    if (Text.trim s).isEmpty then return .null else throw (.malformed s!"{path} is not a document")
  | .document d explicit _ =>
    let mode := (← get).mode
    return if explicit then d else mode.read d

def readSharing (path : String) : Work Reading.Sharing := do
  match ← read path with
  | .text _ => return {}
  | .document _ _ shared => return shared

def write (path : String) (content : Content) : Work Unit :=
  change path (Disk.write content)

def writeText (path text : String) : Work Unit :=
  write path (.text text)

def remove (path : String) : Work Unit :=
  change path Disk.removeFile

def discardFile (path : String) : Work Unit := do
  if ← isThere path then remove path

/-- Makes a file outside of the workspace that is removed again. Its name may not lead into a
directory, for there is none. -/
def temporary (name : String) : Work Unit := do
  if !isPath name then throw (.malformed "embedded null byte")
  if name.toList.contains '/' then throw (.atPath .absent name)
  if name.utf8ByteSize > Disk.longestName then throw (.atPath .longName name)

def makeDirectories (path : String) : Work Unit := do
  checkPath path
  let w ← get
  match w.disk.makeDirectories (w.start path) (Path.names path).reverse with
  | .ok disk => set { w with disk }
  | .error (cause, names) =>
    throw (.atPath cause (w.shown (Path.ofNames (Path.isAbsolute path) names)))

def clear (path : String) : Work Unit := do
  if ← isThere path then
    let w ← get
    match w.disk.removeTree (w.start path) (Path.names path) with
    | .ok disk => set { w with disk }
    | .error cause => throw (.system cause s!"PosixPath({Text.quote (w.shown path)})")

def store (path text : String) : Work Unit := do
  makeDirectories (Path.parent path)
  writeText path text

def namesIn (path : String) : Work (List String) := do
  let w ← get
  return (w.disk.namesIn (w.start path) (Path.names path)).mergeSort fun a b => decide (a ≤ b)

def record (call : ToolCall) : Work Unit :=
  modify fun w => { w with calls := w.calls ++ [call] }

end Work

end Keymap
