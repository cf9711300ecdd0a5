import Keymap.Document.Access
import Keymap.Text.Numeral

namespace Keymap.Header

def after? (start : String) (cs : List Char) : Option (List Char) :=
  if start.toList.isPrefixOf cs then some (cs.drop start.toList.length) else none

def word? (cs : List Char) : Option (String × List Char) :=
  match cs.takeWhile Text.isWordChar with
  | [] => none
  | word => some (String.ofList word, cs.dropWhile Text.isWordChar)

def lastWord? (cs : List Char) : Option String := do
  let (word, rest) ← word? cs
  if rest.head? == some ')' then some word else none

def tapModifiers : List String :=
  ["LGUI", "LALT", "LCTL", "LSFT", "RGUI", "RALT", "RCTL", "RSFT"]

/-- `LGUI_T(KC_A)` is `hrm:LGUI:A`. -/
def modTap? (cs : List Char) : Option String :=
  tapModifiers.findSome? fun modifier => do
    let key ← lastWord? (← after? (modifier ++ "_T(KC_") cs)
    return s!"hrm:{modifier}:{key}"

/-- `ALGR_T(KC_DOT)` is `ALGR_T:DOT`. -/
def altGrTap? (cs : List Char) : Option String := do
  return "ALGR_T:" ++ (← lastWord? (← after? "ALGR_T(KC_" cs))

/-- `LT(NAV, KC_SPC)` is `lt:NAV:SPC`. -/
def layerTap? (cs : List Char) : Option String := do
  let (layer, rest) ← word? (← after? "LT(" cs)
  let key ← after? "KC_" ((← after? "," rest).dropWhile Text.isBlank)
  return s!"lt:{layer}:" ++ (← lastWord? key)

/-- `OSL(NAV)` is `osl:NAV`. -/
def oneShot? (cs : List Char) : Option String := do
  return "osl:" ++ (← lastWord? (← after? "OSL(" cs))

def unusedKeys : List String :=
  ["KC_NO", "U_NA", "U_NU", "U_NP"]

def unified (key : String) : String :=
  let cs := key.toList
  match (((modTap? cs).or (altGrTap? cs)).or (layerTap? cs)).or (oneShot? cs) with
  | some text => text
  | none =>
    if unusedKeys.contains key then "NONE"
    else if Text.startsWith key "KC_" then Text.drop 3 key
    else key

def splitFrom {α : Type} [DecidableEq α] (opening closing comma : α) (depth : Int)
    (piece : List α) : List α → List (List α)
  | [] => [piece.reverse]
  | c :: cs =>
    if c = opening then splitFrom opening closing comma (depth + 1) (c :: piece) cs
    else if c = closing then splitFrom opening closing comma (depth - 1) (c :: piece) cs
    else if c = comma ∧ depth = 0 then
      piece.reverse :: splitFrom opening closing comma depth [] cs
    else splitFrom opening closing comma depth (c :: piece) cs

def trimPieces (pieces : List String) : List String :=
  (pieces.map Text.trim).filter fun key => !key.isEmpty

def splitKeys (text : String) : List String :=
  trimPieces ((splitFrom '(' ')' ',' 0 [] text.toList).map String.ofList)

def splitMembers (d : Document) : Result (List String) := do
  let members ← Document.checkTextsFrom 0 (← d.members)
  return trimPieces ((splitFrom "(" ")" "," 0 [] members).map String.join)

def macroPieces (text : String) : List String :=
  let lines := Text.lines (Text.trim text)
  let isDefine := fun line => Text.startsWith (Text.trim line) "#define"
  let body := if lines.any isDefine then (lines.dropWhile fun l => !isDefine l).drop 1 else lines
  trimPieces (Text.split ',' (Text.trim (Text.replace "\\" "" (Text.join " " body))))

end Keymap.Header
