import Keymap.Board
import Keymap.Text.Pattern
import Keymap.Text.Replacement

namespace Keymap.Drawing

open Text (Pattern)

structure LabelStyle where
  x : Nat
  y : Nat
  fontSize : Nat
  deriving DecidableEq, Repr

def labelStyle : LayoutSize → LabelStyle
  | .split42 => ⟨420, 133, 28⟩
  | .split36 => ⟨448, 112, 28⟩
  | _ => ⟨420, 120, 26⟩

def notQuote (c : Char) : Bool := c != '"'

def notClosing (c : Char) : Bool := c != '>'

def notOpening (c : Char) : Bool := c != '<'

def labelPattern : Pattern :=
  .all [.group (.many Text.isBlank), .text "<text x=\"", .atLeastOne notQuote,
    .text "\" y=\"", .atLeastOne notQuote, .text "\" class=\"label\" id=\"",
    .group (.atLeastOne notQuote), .text "\">", .many notOpening, .text "</text>"]

def labelText (style : LabelStyle) (indent name : String) : String :=
  s!"{indent}<text x=\"{style.x}\" y=\"{style.y}\" class=\"label\" id=\"{name}\" " ++
    s!"text-anchor=\"middle\" dominant-baseline=\"middle\" font-size=\"{style.fontSize}\" " ++
    s!"style=\"text-anchor: middle; dominant-baseline: middle;\">{name}</text>"

def placeLabels (style : LabelStyle) (svg : String) : String :=
  labelPattern.replaceAll (fun f => labelText style (f.group 0) (f.group 1)) svg

def formatLabels (size : LayoutSize) (svg : String) : Result String := do
  let _ ← size.toDocument.asField
  return placeLabels (labelStyle size) svg

def addStyle (declarations tag : String) : String :=
  if Text.contains tag "style=" then
    Text.replace "style=\"" ("style=\"" ++ declarations ++ "; ") tag
  else tag ++ " style=\"" ++ declarations ++ "\""

def textTag : List Pattern :=
  [.anyCaseText "<text", .atLeastOne Text.isBlank, .many notClosing]

def tapTag : Pattern :=
  .all [.group (.all (textTag ++ [.anyCaseText "class=\"",
    .either (.anyCaseText "key tap") (.anyCaseText "tap key"), .text "\"", .many notClosing])),
    .text ">"]

def addFontSize (svg : String) : String :=
  tapTag.replaceAll (fun f => addStyle "font-size: 20px" (f.group 0) ++ ">") svg

def textContent : List Pattern :=
  [.text ">", .group (.many notOpening), .group (.anyCaseText "</text>")]

def tapElement : Pattern :=
  .all (.group (.all (textTag ++ [.anyCaseText "class=\"",
      .optional (.seq (.many notQuote) (.one Text.isBlank)), .anyCaseText "tap",
      .optional (.seq (.one Text.isBlank) (.many notQuote)), .text "\"", .many notClosing])) ::
    textContent)

def labelElement : Pattern :=
  .all (.group (.all (textTag ++ [.anyCaseText "class=\"label\"", .many notClosing])) ::
    textContent)

def sansFamily : String :=
  "font-family: Helvetica, Arial, sans-serif"

/-- Single characters are bold, and so are pairs that do not start with a letter. -/
def isBold (content : String) : Bool :=
  let short :=
    match content.toList with
    | [_] => true
    | [c, _] => !Text.isLetter c
    | _ => false
  let isFunctionKey :=
    match content.toList with
    | 'F' :: c :: cs => (c :: cs).all Text.isDigit
    | _ => false
  (short || ["&lt;", "&gt;", "&quot;", "&amp;", "&apos;"].contains content) && !isFunctionKey

def tapStyle (content : String) : String :=
  if isBold content then "font-size: 28px; font-weight: 700; " ++ sansFamily
  else "font-size: 20px; font-weight: 400; " ++ sansFamily

def styleTaps (svg : String) : String :=
  tapElement.replaceAll (fun f =>
    addStyle (tapStyle (f.group 1)) (f.group 0) ++ ">" ++ f.group 1 ++ f.group 2) svg

def labelDeclarations (paper : Bool) : String :=
  let outline := if paper then ["stroke: none"]
    else ["stroke: white", "stroke-width: 4", "paint-order: stroke"]
  Text.join "; " (["font-weight: 700", sansFamily] ++ outline)

def styleAttribute : Pattern :=
  .all [.text "style=\"", .group (.many notQuote), .text "\""]

/-- Puts declarations in front of those of a label's tag. Every style of the tag becomes what the
first one makes as a replacement text. -/
def styleLabelTag (declarations tag : String) : Result String :=
  if Text.contains tag "style=" then
    match styleAttribute.search tag.toList with
    | none => .ok tag
    | some found =>
      let replacement := "style=\"" ++ declarations ++ "; " ++ found.group 0 ++ "\""
      styleAttribute.replaceAllM
        (fun f => Text.Replacement.expand replacement ("style=\"" ++ f.group 0 ++ "\"")) tag
  else .ok (tag ++ " style=\"" ++ declarations ++ "\"")

def styleLabels (paper : Bool) (svg : String) : Result String :=
  labelElement.replaceAllM (fun f => do
    return (← styleLabelTag (labelDeclarations paper) (f.group 0)) ++ ">" ++ f.group 1 ++
      f.group 2) svg

def addInlineStyles (paper : Bool) (svg : String) : Result String :=
  styleLabels paper (styleTaps svg)

end Keymap.Drawing
