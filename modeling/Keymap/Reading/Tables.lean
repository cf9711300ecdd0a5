import Keymap.Alias
import Keymap.Combo
import Keymap.Magic
import Keymap.Reading.Keymap
import Keymap.RowStagger

namespace Keymap.Reading

def board (id : Field) (d : Document) : Result Board := do
  if !(← d.has "name") then invalid s!"Board {id.text}: 'name' is required"
  if !(← d.has "firmware") then invalid s!"Board {id.text}: 'firmware' is required"
  let board : Board := {
    id := id.toDocument
    name := ← d.field "name"
    firmware := .ofDocument (← d.field "firmware")
    layoutSize := .ofDocument (← d.findD "layout_size" "3x5_3")
    extraLayers := ← d.findD "extra_layers" (.list [])
    keymapFile := ← d.findD "keymap_file" .null
    qmkKeyboard := ← d.findD "qmk_keyboard" .null
    zmkShield := ← d.findD "zmk_shield" .null
    zmkBoard := ← d.findD "zmk_board" .null }
  board.validate
  return board

def boards (d : Document) : Result Inventory := do
  let entries ← (← requireSection d "boards" "boards.yaml must contain 'boards' section").entries
  let inventory : Inventory := ⟨← entries.mapM fun (id, b) => board id b⟩
  inventory.validate
  return inventory

def aliasRule (name : Field) (d : Document) : Result Alias := do
  for field in ["description", "qmk_pattern", "zmk_pattern", "params"] do
    if !(← d.has field) then invalid s!"Alias {name.text}: '{field}' is required"
  return {
    name
    description := ← d.field "description"
    params := ← d.field "params"
    qmkPattern := ← d.field "qmk_pattern"
    zmkPattern := ← d.field "zmk_pattern"
    support := ← d.findD "firmware_support" (.list ["qmk", "zmk"]) }

def aliases (d : Document) : Result Aliases := do
  let entries ← (← requireSection d "behaviors"
    "aliases.yaml must contain 'behaviors' section").entries
  entries.mapM fun (name, a) => aliasRule name a

def specialKeycodes (d : Document) : Result Document := do
  if !d.isPresent then return .record []
  if ← d.has "keycodes" then d.field "keycodes" else return .record []

def keycodes (d : Document) : Document :=
  match d with
  | .record entries => .record entries
  | _ => .record []

def combo (d : Document) : Result Combo := do
  for field in Combo.required do
    if !(← d.has field) then invalid s!"Combo definition missing required field: '{field}'"
  let combo ← Combo.ofFields d
  combo.validate
  return combo

def combos (d : Document) : Result (List Combo) := do
  if !d.isPresent then return []
  if !(← d.has "combos") then return []
  match ← d.field "combos" with
  | .list items =>
    let combos ← items.mapM combo
    Combos.validate combos
    return combos
  | _ => invalid "'combos' must be a list"

def magicDefault (d : Document) : Result Document := do
  match ← d.findD "default" .null with
  | .null =>
    match ← d.find "default_repeat" with
    | some flag => return if flag.isPresent then "REPEAT" else "NONE"
    | none => return "REPEAT"
  | value => return value

def magicMapping (base : Field) (d : Document) : Result MagicMapping := do
  if !(← d.has "mappings") then
    invalid s!"Magic key configuration for {base.text} missing required field: 'mappings'"
  let default ← magicDefault d
  let mapping : MagicMapping := {
    baseLayer := base.toDocument
    timeout := ← d.findD "timeout_ms" (.whole 150)
    mappings := ← d.findD "mappings" (.record [])
    default }
  mapping.validate
  return mapping

def magic (d : Document) : Result MagicConfig := do
  if !d.isPresent then return []
  if !(← d.has "magic_keys") then return []
  match ← d.field "magic_keys" with
  | .record entries =>
    let config ← entries.mapM fun (base, m) => magicMapping base m
    MagicConfig.validate config
    return config
  | _ => invalid "'magic_keys' must be a dictionary mapping base layers to configurations"

def rowStagger (d : Document) : Result RowStagger := do
  for field in ["name", "id", "group", "layout"] do
    if !(← d.has field) then invalid s!"Row-stagger config must contain '{field}' field"
  match ← d.field "layout" with
  | .list rows =>
    let config ← RowStagger.ofParts (← d.field "name") (← d.field "id") (← d.field "group")
      (.list rows) (← d.findD "fingermap" .null)
    config.validate
    return config
  | _ => invalid "'layout' must be a list of rows"

end Keymap.Reading
