import Keymap.RowStagger
import Keymap.Text.Case

namespace Keymap.Keylayout

def positionCodes : List (List Nat) :=
  [[12, 13, 14, 15, 17, 16, 32, 34, 31, 35, 33, 30],
   [0, 1, 2, 3, 5, 4, 38, 40, 37, 41, 39],
   [6, 7, 8, 9, 11, 45, 46, 43, 47, 44]]

def positionCode (row column : Document) : Result Nat := do
  Document.elementBy (← Document.elementBy positionCodes row) column

def shiftedSymbols : List (String × String) :=
  [("`", "~"), ("1", "!"), ("2", "@"), ("3", "#"), ("4", "$"), ("5", "%"), ("6", "^"), ("7", "&"),
   ("8", "*"), ("9", "("), ("0", ")"), ("-", "_"), ("=", "+"), (",", "<"), (".", ">"), ("/", "?"),
   (";", ":"), ("'", "\""), ("[", "\x7b"), ("]", "\x7d"), ("\\", "|")]

def isSingleLetter (key : String) : Bool :=
  match key.toList with
  | [c] => Text.isLetter c
  | _ => false

def shifted (key : String) : String :=
  if isSingleLetter key then Text.upper key else (shiftedSymbols.lookup key).getD key

def output (shift : Bool) (key : Document) : Result Document :=
  if shift then return .text (shifted (← key.word "isalpha")) else return key

def capital (key : String) : String :=
  if isSingleLetter key then Text.upper key else key

def shiftLayer (layout : List (List String)) : List (List String) :=
  layout.map (·.map shifted)

def capsLayer (layout : List (List String)) : List (List String) :=
  layout.map (·.map capital)

def codedKeys (layout : List (List String)) : Result (List (Nat × String)) := do
  let rows ← layout.zipIdx.mapM fun (row, r) =>
    row.zipIdx.mapM fun (key, c) => do return (← positionCode (.whole r) (.whole c), key)
  return rows.flatten

def escape (text : String) : String :=
  match text with
  | "<" => "&#x003C;"
  | ">" => "&#x003E;"
  | "&" => "&#x0026;"
  | "\"" => "&#x0022;"
  | "'" => "&#x0027;"
  | text => text

inductive Effect where
  | output (text : String)
  | action (id : String)
  deriving DecidableEq, Repr

structure KeyMap where
  index : Nat
  title : String
  keys : List (Nat × Effect)
  deriving Repr

def standardKeys : List (Nat × String) :=
  [(0, "a"), (1, "s"), (2, "d"), (3, "f"), (4, "h"), (5, "g"), (6, "z"), (7, "x"), (8, "c"),
   (9, "v"), (10, "§"), (11, "b"), (12, "q"), (13, "w"), (14, "e"), (15, "r"), (16, "y"),
   (17, "t"), (18, "1"), (19, "2"), (20, "3"), (21, "4"), (22, "6"), (23, "5"), (24, "="),
   (25, "9"), (26, "7"), (27, "-"), (28, "8"), (29, "0"), (30, "]"), (31, "o"), (32, "u"),
   (33, "["), (34, "i"), (35, "p"), (36, "&#x000D;"), (37, "l"), (38, "j"), (39, "&#x0027;"),
   (40, "k"), (41, ";"), (42, "\\"), (43, ","), (44, "/"), (45, "n"), (46, "m"), (47, "."),
   (48, "&#x0009;"), (49, " "), (50, "`"), (51, "&#x0008;"), (52, "&#x0003;"), (53, "&#x001B;"),
   (65, "."), (66, "&#x001D;"), (67, "*"), (69, "+"), (70, "&#x001C;"), (71, "&#x001B;"),
   (72, "&#x001F;"), (75, "/"), (76, "&#x0003;"), (77, "&#x001E;"), (78, "-"), (81, "="),
   (82, "0"), (83, "1"), (84, "2"), (85, "3"), (86, "4"), (87, "5"), (88, "6"), (89, "7"),
   (91, "8"), (92, "9"), (96, "&#x0010;"), (97, "&#x0010;"), (98, "&#x0010;"), (99, "&#x0010;"),
   (100, "&#x0010;"), (101, "&#x0010;"), (102, "&#x0010;"), (103, "&#x0010;"), (104, "&#x0010;"),
   (105, "&#x0010;"), (106, "&#x0010;"), (107, "&#x0010;"), (108, "&#x0010;"), (109, "&#x0010;"),
   (110, "&#x0010;"), (111, "&#x0010;"), (112, "&#x0010;"), (113, "&#x0010;"), (114, "&#x0005;"),
   (115, "&#x0001;"), (116, "&#x000B;"), (117, "&#x007F;"), (118, "&#x0010;"), (119, "&#x0004;"),
   (120, "&#x0010;"), (121, "&#x000C;"), (122, "&#x0010;"), (123, "&#x001C;"), (124, "&#x001D;"),
   (125, "&#x001F;"), (126, "&#x001E;")]

def accentedLetters : List String := ["a", "e", "i", "n", "o", "u", "y"]

def layoutEffect (index : Nat) (text : String) : Effect :=
  let letter := Text.lower text
  if isSingleLetter text && accentedLetters.contains letter then
    if index == 1 || (index == 2 && Text.isUpper text) then .action (Text.upper letter)
    else .action letter
  else .output (escape text)

def standardEffect (index : Nat) (text : String) : Effect :=
  .output (if index == 1 then escape (shifted text) else text)

def keyMap (index : Nat) (title : String) (layout : List (List String)) : Result KeyMap := do
  let coded ← codedKeys layout
  return {
    index, title
    keys := standardKeys.map fun (code, standard) =>
      match coded.lookup code with
      | some text => (code, layoutEffect index text)
      | none => (code, standardEffect index standard) }

namespace KeyMap

def keyLine : Nat × Effect → String
  | (code, .action id) => s!"            <key code=\"{code}\" action=\"{id}\"/>"
  | (code, .output text) => s!"            <key code=\"{code}\" output=\"{text}\"/>"

def render (m : KeyMap) : String :=
  Text.unlines ([s!"        <keyMap index=\"{m.index}\">", s!"            <!-- {m.title} -->"] ++
    m.keys.map keyLine ++ ["        </keyMap>"])

end KeyMap

def keyMaps (layout : List (List String)) : Result (List KeyMap) := do
  let plain ← keyMap 0 "Base / Command Layer" layout
  let shift ← keyMap 1 "Shift Layer" (shiftLayer layout)
  let caps ← keyMap 2 "Capitals Lock Layer" (capsLayer layout)
  return [plain, shift, caps]

def indexFrom? (needle : String) (start : Nat) (cs : List Char) : Option Nat :=
  (Text.findSplit needle.toList (cs.drop start)).map fun r => start + r.1.length

/-- The part of a template from an opening text to the end of a closing text. If the opening is
missing the part starts at the last character, and if the closing is missing it stops before the
last character of a closing that would stand at the front, so that in most templates it is empty. -/
def part (fromOpening : Bool) (opening closing : String) (template : List Char) : String :=
  let start := (indexFrom? opening 0 template).getD (template.length - 1)
  let stop := match indexFrom? closing (if fromOpening then start else 0) template with
    | some i => i + closing.length
    | none => closing.length - 1
  String.ofList ((template.take stop).drop start)

def templateKeyMap? (template : List Char) (index : Nat) : Option String :=
  let opening := s!"<keyMap index=\"{index}\">"
  match indexFrom? opening 0 template with
  | none => none
  | some _ =>
    let text := part true opening "</keyMap>" template
    some (Text.unlines ((Text.lines text).map fun line =>
      if (Text.trim line).isEmpty then line else "        " ++ line))

def templateKeyMaps (template : List Char) : String :=
  Text.unlines ([3, 4, 5, 6, 7].filterMap (templateKeyMap? template))

def render (template : String) (config : RowStagger) : Result String := do
  let cs := template.toList
  let maps ← keyMaps config.layout
  return Text.unlines ([
    "<?xml version=\"1.1\" encoding=\"UTF-8\"?>",
    "<!DOCTYPE keyboard SYSTEM \"file://localhost/System/Library/DTDs/KeyboardLayout.dtd\">",
    "<!-- Generated by keyboard-config build system -->",
    s!"<keyboard group=\"{config.group.toText}\" id=\"{config.id.toText}\" " ++
      s!"name=\"{config.name.toText}\" maxout=\"1\">",
    part false "<layouts>" "</layouts>" cs,
    part false "<modifierMap" "</modifierMap>" cs,
    "    <keyMapSet id=\"ANSIISO\">"] ++
    maps.map KeyMap.render ++ [
    templateKeyMaps cs,
    "    </keyMapSet>",
    part true "<keyMapSet id=\"JIS\">" "</keyMapSet>" cs,
    part false "<actions>" "</actions>" cs,
    part false "<terminators>" "</terminators>" cs,
    "</keyboard>"])

end Keymap.Keylayout
