import Keymap.Document.Access
import Keymap.Text.Case

namespace Keymap.Drawing

def legend? (keycodes : Entries) (key : Field) (fields : List String) : Option Document :=
  match keycodes.lookup key with
  | some (.record entries) => fields.findSome? fun name => entries.lookup (.word name)
  | _ => none

def isSingleLetter (key : String) : Bool :=
  match key.toList with
  | [c] => Text.isLetter c
  | _ => false

def smallLetter (key : String) : String :=
  if isSingleLetter key then Text.lower key else key

def keyNames : List (String × String) :=
  [("SPC", "Space"), ("ENT", "Enter"), ("BSPC", "Bksp"), ("DEL", "Del"), ("TAB", "Tab")]

def friendlyName (keycodes : Entries) (key : String) : Document :=
  (legend? keycodes key ["display_glyph", "display_name"]).getD
    (.text (if isSingleLetter key then Text.lower key else (keyNames.lookup key).getD key))

def friendlyNameOf (keycodes : Entries) (key : Document) : Result Document := do
  match (← key.asField).bind fun f => legend? keycodes f ["display_glyph", "display_name"] with
  | some legend => return legend
  | none =>
    discard key.length
    return friendlyName keycodes (← key.word "isalpha")

def charFields : List String := ["display_glyph", "display_name", "char"]

def keyLegend (keycodes : Entries) (key : String) : Document :=
  (legend? keycodes key charFields).getD (.text key)

def keyLegendOf (keycodes : Entries) (key : Document) : Result Document := do
  return ((← key.asField).bind fun f => legend? keycodes f charFields).getD key

def arguments? (kind code : String) : Option (List String) :=
  if Text.startsWith code (kind ++ ":") then some ((Text.split ':' code).drop 1) else none

def unusedKeys : List String :=
  ["NONE", "U_NA", "U_NU", "U_NP"]

def dualCode? (keycodes : Entries) (code : String) : Option String :=
  let modTap := fun kind =>
    match arguments? kind code with
    | some [modifier, key] => some s!"{modifier}_T(KC_{smallLetter key})"
    | _ => none
  let layerTap :=
    match arguments? "lt" code with
    | some [layer, key] => some s!"LT({layer}, KC_{smallLetter key})"
    | _ => none
  let layerKey := fun kind name =>
    match arguments? kind code with
    | some [layer] => some s!"{name}({layer})"
    | _ => none
  let shiftMorph :=
    match arguments? "sm" code with
    | some [base, shifted] =>
      some ("SM_MARKER:" ++ (keyLegend keycodes base).toText ++ "|" ++
        (keyLegend keycodes shifted).toText)
    | _ => none
  (((((modTap "hrm").or (modTap "mt")).or layerTap).or (layerKey "df" "DF")).or
    (layerKey "osl" "OSL")).or shiftMorph

def drawnCode (keycodes : Entries) (code : String) : Document :=
  if unusedKeys.contains code then "KC_NO"
  else match dualCode? keycodes code with
    | some text => text
    | none =>
      match legend? keycodes code ["display_glyph", "display_name"] with
      | some legend => legend
      | none => if code = "QK_BOOT" then code else .text ("KC_" ++ smallLetter code)

/-- Cells that are not texts cannot be drawn. -/
def drawnCell (keycodes : Entries) (cell : Document) : Result Document := do
  return drawnCode keycodes (← cell.word "startswith")

def escape (text : String) : String :=
  Text.replace ">" "&gt;" (Text.replace "<" "&lt;" (Text.replace "&" "&amp;" text))

end Keymap.Drawing
