import Keymap.Fault

namespace Keymap

abbrev Place := List String

inductive Node (α : Type) where
  | file (content : α)
  | directory
  deriving Inhabited

/-- Files and directories by their places. The top directory is not listed, and whatever is listed
lies in a directory. -/
structure Disk (α : Type) where
  nodes : List (Place × Node α) := []
  deriving Inhabited

namespace Disk

variable {α : Type}

def node? (disk : Disk α) (place : Place) : Option (Node α) :=
  if place.isEmpty then some .directory else disk.nodes.lookup place

def longestName : Nat := 255

def longestPath : Nat := 4095

def step (disk : Disk α) (place : Place) (name : String) : Except SystemCause Place :=
  match disk.node? place with
  | none => .error .absent
  | some (.file _) => .error .notDirectory
  | some .directory =>
    if name = ".." then .ok place.dropLast
    else if name.utf8ByteSize > longestName then .error .longName
    else .ok (place ++ [name])

/-- The place that a walk ends at. It lies in a directory, but there need not be anything there. -/
def walk (disk : Disk α) (start : Place) (names : List String) : Except SystemCause Place :=
  names.foldlM disk.step start

def found? (disk : Disk α) (start : Place) (names : List String) : Option (Node α) :=
  (disk.walk start names).toOption.bind disk.node?

def isDirectory (disk : Disk α) (start : Place) (names : List String) : Bool :=
  match disk.found? start names with
  | some .directory => true
  | _ => false

def read (disk : Disk α) (start : Place) (names : List String) : Except SystemCause α := do
  match disk.node? (← disk.walk start names) with
  | some (.file content) => return content
  | some .directory => throw .directory
  | none => throw .absent

def write (content : α) (disk : Disk α) (start : Place) (names : List String) :
    Except SystemCause (Disk α) := do
  let place ← disk.walk start names
  match disk.node? place with
  | some .directory => throw .directory
  | _ => return ⟨assign place (.file content) disk.nodes⟩

def removeFile (disk : Disk α) (start : Place) (names : List String) :
    Except SystemCause (Disk α) := do
  let place ← disk.walk start names
  match disk.node? place with
  | some (.file _) => return ⟨disk.nodes.filter fun n => n.1 != place⟩
  | some .directory => throw .directory
  | none => throw .absent

def removeTree (disk : Disk α) (start : Place) (names : List String) :
    Except SystemCause (Disk α) := do
  let place ← disk.walk start names
  match disk.node? place with
  | some .directory => return ⟨disk.nodes.filter fun n => !place.isPrefixOf n.1⟩
  | some (.file _) => throw .notDirectory
  | none => throw .absent

def makeDirectory (disk : Disk α) (start : Place) (names : List String) :
    Except SystemCause (Disk α) := do
  let place ← disk.walk start names
  match disk.node? place with
  | none => return ⟨disk.nodes ++ [(place, .directory)]⟩
  | some .directory => return disk
  | some (.file _) => throw .present

/-- Makes a directory and those above it that are absent. The names are given last one first. A
failure says at which names it happened. -/
def makeDirectories (disk : Disk α) (start : Place) :
    List String → Except (SystemCause × List String) (Disk α)
  | [] => .ok disk
  | name :: above =>
    let names := (name :: above).reverse
    match disk.makeDirectory start names with
    | .ok made => .ok made
    | .error .absent => do
      let made ← makeDirectories disk start above
      (made.makeDirectory start names).mapError fun cause => (cause, names)
    | .error cause => .error (cause, names)

def namesIn (disk : Disk α) (start : Place) (names : List String) : List String :=
  match disk.walk start names with
  | .error _ => []
  | .ok place => disk.nodes.filterMap fun n =>
    if place.isPrefixOf n.1 ∧ n.1.length = place.length + 1 then n.1.getLast? else none

def files (disk : Disk α) : List (Place × α) :=
  disk.nodes.filterMap fun n =>
    match n.2 with
    | .file content => some (n.1, content)
    | .directory => none

def add (content : α) (disk : Disk α) (place : Place) : Disk α :=
  let above := (List.range place.length).map fun n => place.take n
  let absent := above.filter fun p => (disk.node? p).isNone
  ⟨assign place (.file content) (disk.nodes ++ absent.map fun p => (p, .directory))⟩

end Disk

end Keymap
