import Keymap.Document.Access
import Keymap.Text.Case
import Keymap.Text.Listing
import Keymap.Text.Numeral

namespace Keymap

inductive Firmware where
  | qmk
  | zmk
  | other (name : Document)
  deriving Inhabited

namespace Firmware

def ofDocument : Document → Firmware
  | .text "qmk" => .qmk
  | .text "zmk" => .zmk
  | d => .other d

def toDocument : Firmware → Document
  | .qmk => "qmk"
  | .zmk => "zmk"
  | .other d => d

def isQmk : Firmware → Bool
  | .qmk => true
  | _ => false

def isZmk : Firmware → Bool
  | .zmk => true
  | _ => false

end Firmware

inductive LayoutSize where
  /-- Three rows of five keys and three thumb keys for each hand. -/
  | split36
  /-- As `split36`, with an outer column of three keys for each hand. -/
  | split42
  /-- As `split36`, with one outer key for each hand in the bottom row. -/
  | totem38
  | custom (tag : String)
  | unknown (name : Document)
  deriving Inhabited

namespace LayoutSize

def ofText (s : String) : LayoutSize :=
  if s = "3x5_3" then .split36
  else if s = "3x6_3" then .split42
  else if s = "totem_38" then .totem38
  else if Text.startsWith s "custom_" then .custom (Text.drop 7 s)
  else .unknown s

def ofDocument : Document → LayoutSize
  | .text s => ofText s
  | d => .unknown d

def toDocument : LayoutSize → Document
  | .split36 => "3x5_3"
  | .split42 => "3x6_3"
  | .totem38 => "totem_38"
  | .custom tag => .text ("custom_" ++ tag)
  | .unknown d => d

def text (size : LayoutSize) : String :=
  size.toDocument.toText

def isKnown : LayoutSize → Result Bool
  | .unknown (.text _) => .ok false
  | .unknown d => .error (.lacking d.kind "startswith")
  | _ => .ok true

end LayoutSize

structure Board where
  id : Document
  name : Document
  firmware : Firmware
  layoutSize : LayoutSize := .split36
  extraLayers : Document := .list []
  keymapFile : Document := .null
  qmkKeyboard : Document := .null
  zmkShield : Document := .null
  zmkBoard : Document := .null
  deriving Inhabited

namespace Board

def extensionKinds (board : Board) : Result (List String) :=
  match board.layoutSize with
  | .split42 => .ok ["3x6_3"]
  | size => size.isKnown.map fun _ => []

def validate (board : Board) : Result Unit := do
  let id := board.id.toText
  match board.firmware with
  | .qmk =>
    if !board.qmkKeyboard.isPresent then
      invalid s!"Board {id}: qmk_keyboard required for QMK firmware"
  | .zmk =>
    if !board.zmkShield.isPresent && !board.zmkBoard.isPresent then
      invalid s!"Board {id}: either zmk_shield or zmk_board required for ZMK firmware"
  | .other _ => return

def outputDirectory (board : Board) : String :=
  match board.firmware with
  | .qmk => s!"qmk/keyboards/{board.qmkKeyboard.toText}/keymaps/dario"
  | _ => s!"zmk/keymaps/{board.zmkShield.toText}_dario"

def isIdentifier (id : String) : Bool :=
  !id.isEmpty && Text.isLower id && id.toList.all Text.isWordChar

def checkStrictly (board : Board) : Result Unit := do
  let id := board.id.toText
  if !board.id.isPresent then invalid "Board ID is required"
  if !isIdentifier (← board.id.word "islower") then
    invalid (s!"Invalid board ID: '{id}'. " ++
      "Board IDs must be lowercase alphanumeric with underscores")
  match board.firmware with
  | .qmk =>
    if !board.qmkKeyboard.isPresent then
      invalid s!"Board {id}: qmk_keyboard is required for QMK firmware"
  | .zmk =>
    if !board.zmkShield.isPresent && !board.zmkBoard.isPresent then
      invalid s!"Board {id}: either zmk_shield or zmk_board is required for ZMK firmware"
  | .other name =>
    invalid (s!"Board {id}: invalid firmware type '{name.toText}'. " ++
      "Must be 'qmk' or 'zmk'")
  if !(← board.layoutSize.isKnown) then
    invalid (s!"Board {id}: invalid layout_size '{board.layoutSize.text}'. " ++
      "Must be one of ['3x5_3', '3x6_3', 'totem_38'] or start with 'custom_'")

def fields (board : Board) : Entries :=
  [("id", board.id), ("name", board.name), ("firmware", board.firmware.toDocument),
   ("layout_size", board.layoutSize.toDocument), ("extra_layers", board.extraLayers),
   ("keymap_file", board.keymapFile), ("qmk_keyboard", board.qmkKeyboard),
   ("zmk_shield", board.zmkShield), ("zmk_board", board.zmkBoard)]

end Board

def Board.ofDocument (d : Document) : Result Board := do
  d.checkForm ["id", "name", "firmware"]
    ["layout_size", "extra_layers", "keymap_file", "qmk_keyboard", "zmk_shield", "zmk_board"]
  return {
    id := d.getD "id"
    name := d.getD "name"
    firmware := .ofDocument (d.getD "firmware")
    layoutSize := .ofDocument (d.getD "layout_size" "3x5_3")
    extraLayers := d.getD "extra_layers" (.list [])
    keymapFile := d.getD "keymap_file"
    qmkKeyboard := d.getD "qmk_keyboard"
    zmkShield := d.getD "zmk_shield"
    zmkBoard := d.getD "zmk_board" }

def putBoard (board : Board) : List Board → List Board
  | [] => [board]
  | b :: bs => if b.id.same board.id then board :: bs else b :: putBoard board bs

def boardsById (boards : List Board) : Result (List Board) := do
  boards.forM fun b => do let _ ← b.id.asField
  return boards.foldl (fun acc b => putBoard b acc) []

structure Inventory where
  boards : List Board
  deriving Inhabited

namespace Inventory

def noBoard : String := "At least one board must be defined"

def validate (inventory : Inventory) : Result Unit := do
  if inventory.boards.isEmpty then invalid noBoard
  inventory.boards.forM Board.validate

def find? (inventory : Inventory) (id : Document) : Option Board :=
  inventory.boards.find? fun b => b.id.same id

def qmkBoards (inventory : Inventory) : List Board :=
  inventory.boards.filter fun b => b.firmware.isQmk

def zmkBoards (inventory : Inventory) : List Board :=
  inventory.boards.filter fun b => b.firmware.isZmk

end Inventory

def repeatedIn (xs : List Document) : List Document :=
  xs.filter fun x => xs.countP (fun y => y.same x) > 1

def distinct : List Document → List Document
  | [] => []
  | d :: ds => d :: (distinct ds).filter fun e => !e.same d

def isBefore (a b : Document) : Bool :=
  match Field.ofDocument? a, Field.ofDocument? b with
  | some f, some g => f.isBefore g
  | none, _ => true
  | some _, none => false

def nameSet (names : List Document) : Result String := do
  names.forM fun name => do let _ ← name.asField
  let shown := ((distinct names).mergeSort isBefore).map Document.quoted
  return "\x7b" ++ Text.join ", " shown ++ "\x7d"

def checkBoardsStrictly (boards : List Board) : Result Unit := do
  if boards.isEmpty then invalid Inventory.noBoard
  let twice := repeatedIn (boards.map (·.id))
  if !twice.isEmpty then
    invalid ("Duplicate board IDs found: " ++ (← nameSet twice))
  boards.forM Board.checkStrictly

end Keymap
