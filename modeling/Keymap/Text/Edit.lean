import Keymap.Text.Blank

namespace Keymap.Text

/-- Replaces every occurrence of the non-empty text `old`, from left to right. The first argument
counts the characters of the last occurrence that are still to be skipped. -/
def replaceFrom (old new : List Char) : Nat → List Char → List Char
  | _, [] => []
  | skip + 1, _ :: cs => replaceFrom old new skip cs
  | 0, c :: cs =>
    if old.isPrefixOf (c :: cs) then new ++ replaceFrom old new (old.length - 1) cs
    else c :: replaceFrom old new 0 cs

def replace (old new s : String) : String :=
  if old.toList.isEmpty then
    String.ofList (new.toList ++ s.toList.flatMap fun c => c :: new.toList)
  else String.ofList (replaceFrom old.toList new.toList 0 s.toList)

def replaceFirstFrom (old new : List Char) : Nat → Nat → List Char → List Char
  | _, _, [] => []
  | n, skip + 1, _ :: cs => replaceFirstFrom old new n skip cs
  | n, 0, c :: cs =>
    if 0 < n && old.isPrefixOf (c :: cs) then
      new ++ replaceFirstFrom old new (n - 1) (old.length - 1) cs
    else c :: replaceFirstFrom old new n 0 cs

def replaceFirst (old new s : String) : String :=
  String.ofList (replaceFirstFrom old.toList new.toList 1 0 s.toList)

def findSplit (needle : List Char) : List Char → Option (List Char × List Char)
  | [] => if needle.isEmpty then some ([], []) else none
  | c :: cs =>
    if needle.isPrefixOf (c :: cs) then some ([], (c :: cs).drop needle.length)
    else (findSplit needle cs).map fun r => (c :: r.1, r.2)

def contains (s needle : String) : Bool :=
  (findSplit needle.toList s.toList).isSome

def startsWith (s start : String) : Bool :=
  start.toList.isPrefixOf s.toList

def endsWith (s ending : String) : Bool :=
  ending.toList.isSuffixOf s.toList

def drop (n : Nat) (s : String) : String :=
  String.ofList (s.toList.drop n)

def take (n : Nat) (s : String) : String :=
  String.ofList (s.toList.take n)

def dropEnd (n : Nat) (s : String) : String :=
  String.ofList (s.toList.take (s.toList.length - n))

def splitChars (sep : Char → Bool) : List Char → List (List Char)
  | [] => [[]]
  | c :: cs =>
    if sep c then [] :: splitChars sep cs
    else match splitChars sep cs with
      | [] => [[c]]
      | piece :: pieces => (c :: piece) :: pieces

def split (sep : Char) (s : String) : List String :=
  (splitChars (· == sep) s.toList).map String.ofList

def words (s : String) : List String :=
  ((splitChars isBlank s.toList).filter fun w => !w.isEmpty).map String.ofList

def trimStartChars (drop : Char → Bool) (cs : List Char) : List Char :=
  cs.dropWhile drop

def trimEndChars (drop : Char → Bool) (cs : List Char) : List Char :=
  (cs.reverse.dropWhile drop).reverse

def trimBy (drop : Char → Bool) (s : String) : String :=
  String.ofList (trimEndChars drop (trimStartChars drop s.toList))

def trimEndBy (drop : Char → Bool) (s : String) : String :=
  String.ofList (trimEndChars drop s.toList)

def trim (s : String) : String :=
  trimBy isBlank s

def trimStart (s : String) : String :=
  String.ofList (trimStartChars isBlank s.toList)

def trimEnd (s : String) : String :=
  String.ofList (trimEndChars isBlank s.toList)

def lines (s : String) : List String :=
  split '\n' s

def isLineEnd (c : Char) : Bool :=
  ['\n', '\r', '\x0b', '\x0c', '\x1c', '\x1d', '\x1e', '\u0085', '\u2028', '\u2029'].contains c

/-- The lines that end at any line end; `line` holds the characters since the last one, last one
first. What follows the last line end is a line only if it is not empty. -/
def lineEndsFrom (line : List Char) : List Char → List (List Char)
  | [] => if line.isEmpty then [] else [line.reverse]
  | '\r' :: '\n' :: cs => line.reverse :: lineEndsFrom [] cs
  | c :: cs =>
    if isLineEnd c then line.reverse :: lineEndsFrom [] cs else lineEndsFrom (c :: line) cs

def splitLines (s : String) : List String :=
  (lineEndsFrom [] s.toList).map String.ofList

def unixLines (s : String) : String :=
  replace "\r" "\n" (replace "\r\n" "\n" s)

def unlines (ls : List String) : String :=
  String.intercalate "\n" ls

def join (sep : String) (parts : List String) : String :=
  String.intercalate sep parts

def spaces (n : Nat) : String :=
  String.ofList (List.replicate n ' ')

def repeated (n : Nat) (s : String) : String :=
  String.join (List.replicate n s)

def padRight (width : Nat) (s : String) : String :=
  s ++ spaces (width - s.length)

def padLeft (width : Nat) (s : String) : String :=
  spaces (width - s.length) ++ s

end Keymap.Text
