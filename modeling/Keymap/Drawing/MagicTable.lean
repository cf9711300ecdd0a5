import Keymap.Decimal.Reading
import Keymap.Drawing.Magic
import Keymap.Text.Pattern

namespace Keymap.Drawing

def coordinate (x : Float) : String :=
  (Decimal.Double.ofFloat x).text

def columnCount : Nat := 3

def cellWidth : Float := 180

def columnGap : Float := 50

def rowHeight : Float := 38

def sectionSpacing : Float := 30

def gridWidth : Float := 640

def sansSerif : String :=
  "font-family: -apple-system, BlinkMacSystemFont, 'Segoe UI', Arial, sans-serif; "

def tableTitle (width y : Float) : String :=
  s!"<text x=\"{coordinate (width / 2)}\" y=\"{coordinate y}\" text-anchor=\"middle\" " ++
    "style=\"" ++ sansSerif ++ "font-size: 22px; font-weight: 700; fill: #1a1a1a;\">" ++
    "Magic Keys</text>"

def sectionTitle (title : String) (left y : Float) : List String :=
  [s!"<text x=\"{coordinate left}\" y=\"{coordinate y}\" " ++
     "style=\"text-anchor: start; " ++ sansSerif ++
     "font-size: 15px; font-weight: 700; fill: #555;\">" ++ escape title ++ "</text>",
   s!"<line x1=\"{coordinate left}\" y1=\"{coordinate (y + 5)}\" " ++
     s!"x2=\"{coordinate (left + gridWidth)}\" y2=\"{coordinate (y + 5)}\" " ++
     "stroke=\"#ddd\" stroke-width=\"1\"/>"]

def badge (label : String) (x y : Float) : List String :=
  [s!"<rect x=\"{coordinate x}\" y=\"{coordinate y}\" width=\"75\" height=\"26\" " ++
     "rx=\"4\" fill=\"#e8eaed\"/>",
   s!"<text x=\"{coordinate (x + 37.5)}\" y=\"{coordinate (y + 13)}\" text-anchor=\"middle\" " ++
     "dominant-baseline=\"central\" style=\"" ++ sansSerif ++
     "font-size: 16px; font-weight: 700; fill: #555;\">" ++ escape label ++ "</text>"]

def outputCell (output : String) (x y : Float) : String :=
  let place := s!"<text x=\"{coordinate x}\" y=\"{coordinate y}\" "
  match output.toList with
  | first :: rest =>
    place ++ "style=\"text-anchor: start; dominant-baseline: central; " ++
      "font-family: Arial, sans-serif; font-size: 18px; fill: #000;\">" ++
      "<tspan style=\"font-family: Arial Bold, Arial-Bold, Arial; font-weight: bold;\">" ++
      escape (String.singleton first) ++ "</tspan><tspan>" ++ escape (String.ofList rest) ++
      "</tspan></text>"
  | [] =>
    place ++ "style=\"text-anchor: start; dominant-baseline: central; " ++ sansSerif ++
      "font-size: 18px; font-weight: 400; fill: #000;\"></text>"

def visibleOutput (output : String) : String :=
  if Text.startsWith output "[ ]" then "_" ++ Text.drop 3 output else output

def cell (left y : Float) (entry : MagicEntry) (i : Nat) : List String :=
  let x := left + (i % columnCount).toFloat * (cellWidth + columnGap)
  let top := y + (i / columnCount).toFloat * rowHeight + 6
  badge entry.label (x + 10) top ++
    [outputCell (visibleOutput entry.output) (x + 10 + 75 + 12) (top + 13)]

def tableSection (width : Float) (title : String) (entries : List MagicEntry) (y : Float) :
    List String × Float :=
  if entries.isEmpty then ([], y)
  else
    let left := (width - gridWidth) / 2
    let top := y + sectionSpacing
    let rows := (entries.length + columnCount - 1) / columnCount
    (sectionTitle title left y ++
       (entries.zipIdx.flatMap fun (entry, i) => cell left top entry i),
     top + rows.toFloat * rowHeight + sectionSpacing)

def splitLast (needle : List Char) : List Char → Option (List Char × List Char)
  | [] => none
  | c :: cs =>
    match splitLast needle cs with
    | some (before, after) => some (c :: before, after)
    | none => if needle.isPrefixOf (c :: cs) then some ([], c :: cs) else none

def viewBox : Text.Pattern :=
  .all [.text "viewBox=\"", .group (.atLeastOne (· != '"')), .text "\""]

def svgHeight : Text.Pattern :=
  .all [.group (.seq (.text "<svg") (.many (· != '>'))), .one Text.isBlank, .text "height=\"",
    .many (· != '"'), .text "\""]

def readCoordinate (text : String) : Result Float :=
  match Decimal.readDouble? text with
  | some x => .ok x.toFloat
  | none => .error (.malformed s!"could not convert string to float: {Text.quote text}")

def part (parts : List String) (i : Nat) : Result String :=
  Document.elementAt "list" parts i

def addTable (svg box : String) (width height : Float) (words pairs : List MagicEntry) : String :=
  let start := height + 30
  let (wordPart, y) := tableSection width "WORDS & SYMBOLS" words (start + (sectionSpacing + 5))
  let (pairPart, y) := tableSection width "LETTER ALTERNATIVES" (sortPairs pairs) y
  let newHeight := y + 20
  let top := height + 10
  let background := s!"<rect x=\"0\" y=\"{coordinate top}\" width=\"{coordinate width}\" " ++
    s!"height=\"{coordinate (newHeight - top)}\" fill=\"white\"/>"
  let table := Text.unlines (background :: tableTitle width start :: wordPart ++ pairPart)
  let svg := Text.replace s!"viewBox=\"{box}\""
    s!"viewBox=\"0 0 {coordinate width} {coordinate newHeight}\"" svg
  let svg := svgHeight.replaceFirst
    (fun f => f.group 0 ++ s!" height=\"{coordinate newHeight}\"") svg
  match splitLast "</svg>".toList svg.toList with
  | some (before, after) =>
    String.ofList before ++ table ++ "\n" ++ String.ofList after
  | none => svg

def addEntries (svg : String) (words pairs : List MagicEntry) : Result String := do
  match viewBox.search svg.toList with
  | none => return svg
  | some found =>
    let parts := Text.words (found.group 0)
    let width ← readCoordinate (← part parts 2)
    let height ← readCoordinate (← part parts 3)
    return addTable svg (found.group 0) width height words pairs

def addMagic (keycodes : Entries) (magic : Option MagicConfig) (svg base : Document) :
    Result Document := do
  let config := magic.getD []
  if List.isEmpty config then return svg
  let _ ← base.asField
  match config.find? base with
  | none => return svg
  | some mapping =>
    let (words, pairs) ← magicEntries keycodes (← mapping.mappings.entries)
    if words.isEmpty && pairs.isEmpty then return svg
    return .text (← addEntries (← svg.searched) words pairs)

end Keymap.Drawing
