import Keymap.Generate.Run
import Keymap.Header.Migrate

namespace Keymap.Main

def contentOf (path text : String) : Content :=
  if Text.endsWith path ".yaml" then
    match Document.ofJson? text with
    | some d => .document d
    | none => .text text
  else .text text

def textOf : Content → String
  | .text s => s
  | .document d _ _ => d.toIndentedJson 0 ++ "\n"

def command (words : List String) : Work (Nat × List String) := do
  match words with
  | ["migrate"] => return (← Header.migrate, [])
  | ["settings"] => Drawing.updateProgram
  | words => return (← Generate.run words, [])

def readFiles (root : String) : IO (List (String × Content)) := do
  let directory ← IO.FS.realPath root
  let entries ← directory.walkDir fun d => return !Text.startsWith (d.fileName.getD "") "."
  let mut files := []
  for entry in entries do
    if !(← entry.isDir) then
      let path := Text.drop (root.length + 1) entry.toString
      if let some text := String.fromUTF8? (← IO.FS.readBinFile entry) then
        files := (path, contentOf path text) :: files
  return files.reverse

def writeFiles (start after : Workspace) : IO Unit := do
  for path in Workspace.removedSince start after do
    IO.FS.removeFile (start.shown path)
  for (path, content) in Workspace.changesSince start after do
    let place := start.shown path
    IO.FS.createDirAll (Text.dropEnd (Path.fileName place).length place)
    IO.FS.writeFile place (textOf content)

def run (words : List String) : IO UInt32 := do
  let root := (← IO.FS.realPath ".").toString
  let start := Workspace.ofFiles root (← readFiles root)
  let (result, after) := (command words).run.run start
  after.log.forM fun line => IO.println line
  writeFiles start after
  match result with
  | .ok (status, errors) =>
    errors.forM fun line => IO.eprintln line
    return status.toUInt32
  | .error fault =>
    IO.eprintln fault.message
    return 1

end Keymap.Main

def main (words : List String) : IO UInt32 :=
  Keymap.Main.run words
