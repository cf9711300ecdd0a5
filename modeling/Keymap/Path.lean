import Keymap.Text.Edit

namespace Keymap.Path

def names (path : String) : List String :=
  (Text.split '/' path).filter fun name => !name.isEmpty && name != "."

def isAbsolute (path : String) : Bool :=
  Text.startsWith path "/"

def ofNames (top : Bool) (names : List String) : String :=
  (if top then "/" else "") ++ Text.join "/" names

def clean (path : String) : String :=
  ofNames (isAbsolute path) (names path)

def join (start path : String) : String :=
  if isAbsolute path then clean path else clean (start ++ "/" ++ path)

def parent (path : String) : String :=
  ofNames (isAbsolute path) (names path).dropLast

def fileName (path : String) : String :=
  (names path).getLast?.getD ""

def stem (name : String) : String :=
  let before := (name.toList.reverse.dropWhile (· != '.')).drop 1
  if before.isEmpty then name else String.ofList before.reverse

end Keymap.Path
