import Keymap.Decimal.Reading
import Keymap.Document

namespace Keymap.Document

def skipBlanks (cs : List Char) : List Char :=
  cs.dropWhile fun c => c == ' ' || c == '\n' || c == '\t' || c == '\r'

def hexValue? (c : Char) : Option Nat :=
  if '0' ≤ c && c ≤ '9' then some (c.toNat - 48)
  else if 'a' ≤ c && c ≤ 'f' then some (c.toNat - 87)
  else if 'A' ≤ c && c ≤ 'F' then some (c.toNat - 55)
  else none

def readHex4 : List Char → Option (Nat × List Char)
  | a :: b :: c :: d :: rest => do
    let a ← hexValue? a
    let b ← hexValue? b
    let c ← hexValue? c
    let d ← hexValue? d
    return (((a * 16 + b) * 16 + c) * 16 + d, rest)
  | _ => none

/-- The character of an escape whose backslash has been read; two escapes may form one
character. -/
def readEscape : List Char → Option (Char × List Char)
  | 'n' :: cs => some ('\n', cs)
  | 't' :: cs => some ('\t', cs)
  | 'r' :: cs => some ('\r', cs)
  | 'b' :: cs => some ('\x08', cs)
  | 'f' :: cs => some ('\x0c', cs)
  | 'u' :: cs => do
    let (high, rest) ← readHex4 cs
    if 0xD800 ≤ high && high < 0xDC00 then
      match rest with
      | '\\' :: 'u' :: more =>
        let (low, rest) ← readHex4 more
        return (Char.ofNat (0x10000 + (high - 0xD800) * 0x400 + (low - 0xDC00)), rest)
      | _ => none
    else return (Char.ofNat high, rest)
  | c :: cs => some (c, cs)
  | [] => none

def readString : Nat → List Char → List Char → Option (String × List Char)
  | 0, _, _ => none
  | _ + 1, _, [] => none
  | fuel + 1, acc, c :: cs =>
    if c == '"' then some (String.ofList acc.reverse, cs)
    else if c == '\\' then do
      let (e, rest) ← readEscape cs
      readString fuel (e :: acc) rest
    else readString fuel (c :: acc) cs

def afterWord? (word : String) (cs : List Char) : Option (List Char) :=
  if word.toList.isPrefixOf cs then some (cs.drop word.length) else none

def readUnsigned (negative : Bool) (cs : List Char) : Option (Document × List Char) :=
  match afterWord? "Infinity" cs with
  | some rest => some (.decimal (.ofFloat (if negative then -1 / 0 else 1 / 0)), rest)
  | none =>
    let s := Decimal.scan cs
    if s.whole.isEmpty then none
    else if s.isWhole then
      let n : Int := Decimal.readNat s.whole
      some (.whole (if negative then -n else n), s.rest)
    else some (.decimal (s.toDouble negative), s.rest)

def readNumber (cs : List Char) : Option (Document × List Char) :=
  match afterWord? "NaN" cs with
  | some rest => some (.decimal (.ofFloat (0 / 0)), rest)
  | none =>
    match cs with
    | '-' :: cs => readUnsigned true cs
    | cs => readUnsigned false cs

mutual

def readValue : Nat → List Char → Option (Document × List Char)
  | 0, _ => none
  | fuel + 1, cs =>
    match skipBlanks cs with
    | '"' :: cs => (readString fuel [] cs).map fun r => (.text r.1, r.2)
    | '[' :: cs =>
      match skipBlanks cs with
      | ']' :: rest => some (.list [], rest)
      | cs => (readItems fuel cs).map fun r => (.list r.1, r.2)
    | '{' :: cs =>
      match skipBlanks cs with
      | '}' :: rest => some (.record [], rest)
      | cs => (readEntries fuel cs).map fun r => (.record r.1, r.2)
    | 't' :: 'r' :: 'u' :: 'e' :: rest => some (.flag true, rest)
    | 'f' :: 'a' :: 'l' :: 's' :: 'e' :: rest => some (.flag false, rest)
    | 'n' :: 'u' :: 'l' :: 'l' :: rest => some (.null, rest)
    | cs => readNumber cs

def readItems : Nat → List Char → Option (List Document × List Char)
  | 0, _ => none
  | fuel + 1, cs => do
    let (d, rest) ← readValue fuel cs
    match skipBlanks rest with
    | ',' :: more =>
      let (ds, rest) ← readItems fuel more
      return (d :: ds, rest)
    | ']' :: rest => return ([d], rest)
    | _ => none

def readEntries : Nat → List Char → Option (List (Field × Document) × List Char)
  | 0, _ => none
  | fuel + 1, cs =>
    match skipBlanks cs with
    | '"' :: cs => do
      let (name, rest) ← readString fuel [] cs
      match skipBlanks rest with
      | ':' :: rest =>
        let (d, rest) ← readValue fuel rest
        match skipBlanks rest with
        | ',' :: more =>
          let (es, rest) ← readEntries fuel more
          return ((.word name, d) :: es, rest)
        | '}' :: rest => return ([(.word name, d)], rest)
        | _ => none
      | _ => none
    | _ => none

end

/-- Reads a whole text as one document. A bracket takes two steps, and no other character more, so
that there are always as many steps left as characters. -/
def ofJson? (s : String) : Option Document :=
  let cs := s.toList
  match readValue (2 * cs.length + 2) cs with
  | some (d, rest) => if (skipBlanks rest).isEmpty then some d else none
  | none => none

def escapeShort? (c : Char) : Option (List Char) :=
  if c == '"' then some ['\\', '"']
  else if c == '\\' then some ['\\', '\\']
  else if c == '\n' then some ['\\', 'n']
  else if c == '\r' then some ['\\', 'r']
  else if c == '\t' then some ['\\', 't']
  else if c == '\x08' then some ['\\', 'b']
  else if c == '\x0c' then some ['\\', 'f']
  else none

def escapeUnit (n : Nat) : List Char :=
  '\\' :: 'u' :: Text.hex 4 n

/-- Only what JSON requires is escaped. -/
def jsonChar (c : Char) : List Char :=
  match escapeShort? c with
  | some cs => cs
  | none => if c.toNat < 32 then escapeUnit c.toNat else [c]

/-- Everything outside ASCII is escaped, in two units if one does not suffice. -/
def jsonAsciiChar (c : Char) : List Char :=
  match escapeShort? c with
  | some cs => cs
  | none =>
    let n := c.toNat
    if 32 ≤ n && n < 127 then [c]
    else if n < 0x10000 then escapeUnit n
    else
      let m := n - 0x10000
      escapeUnit (0xD800 + m / 0x400) ++ escapeUnit (0xDC00 + m % 0x400)

def jsonText (escape : Char → List Char) (s : String) : String :=
  String.ofList ('"' :: s.toList.flatMap escape ++ ['"'])

def decimalJson (x : Decimal.Double) : String :=
  if x.isNaN then "NaN"
  else if x.isInfinite then if x.isNegative then "-Infinity" else "Infinity"
  else x.text

def scalarJson (escape : Char → List Char) : Document → String
  | .null => "null"
  | .flag b => if b then "true" else "false"
  | .whole n => toString n
  | .decimal x => decimalJson x
  | .text s => jsonText escape s
  | .list _ => "[]"
  | .record _ => "\x7b\x7d"

mutual

def toJson : Document → String
  | .list items => "[" ++ Text.join ", " (itemsJson items) ++ "]"
  | .record entries => "\x7b" ++ Text.join ", " (entriesJson entries) ++ "\x7d"
  | d => scalarJson jsonChar d

def itemsJson : List Document → List String
  | [] => []
  | d :: ds => d.toJson :: itemsJson ds

def entriesJson : List (Field × Document) → List String
  | [] => []
  | (f, d) :: es => (jsonText jsonChar f.text ++ ": " ++ d.toJson) :: entriesJson es

end

mutual

def toIndentedJson (depth : Nat) : Document → String
  | .list [] => "[]"
  | .list items =>
    "[\n" ++ Text.join ",\n" (indentedItems (depth + 1) items) ++ "\n" ++
      Text.spaces (2 * depth) ++ "]"
  | .record [] => "\x7b\x7d"
  | .record entries =>
    "\x7b\n" ++ Text.join ",\n" (indentedEntries (depth + 1) entries) ++ "\n" ++
      Text.spaces (2 * depth) ++ "\x7d"
  | d => scalarJson jsonAsciiChar d

def indentedItems (depth : Nat) : List Document → List String
  | [] => []
  | d :: ds => (Text.spaces (2 * depth) ++ d.toIndentedJson depth) :: indentedItems depth ds

def indentedEntries (depth : Nat) : List (Field × Document) → List String
  | [] => []
  | (f, d) :: es =>
    (Text.spaces (2 * depth) ++ jsonText jsonAsciiChar f.text ++ ": " ++ d.toIndentedJson depth) ::
      indentedEntries depth es

end

end Keymap.Document
