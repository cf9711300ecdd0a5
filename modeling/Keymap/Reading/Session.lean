import Keymap.Reading.Mode
import Keymap.Reading.Tables

namespace Keymap.Reading

inductive Request where
  | keymap (d : Document) (overlay : Option Document)
  | boards (d : Document)
  | aliases (d : Document)
  | combos (d : Document)
  | magic (d : Document)
  | rowStagger (d : Document)
  | specialKeycodes (d : Document)
  | keycodes (d : Document)

inductive Answer where
  | keymap (config : KeymapConfig)
  | boards (inventory : Inventory)
  | aliases (aliases : Aliases)
  | combos (combos : List Combo)
  | magic (config : MagicConfig)
  | rowStagger (config : RowStagger)
  | keycodes (table : Document)

def Request.next (mode : ReadingMode) : Request → ReadingMode
  | .keymap _ _ => .words
  | _ => mode

def Request.answer (mode : ReadingMode) : Request → Result Answer
  | .keymap d overlay => (Reading.keymap d.asWords (overlay.map Document.asWords)).map .keymap
  | .boards d => (Reading.boards (mode.read d)).map .boards
  | .aliases d => (Reading.aliases (mode.read d)).map .aliases
  | .combos d => (Reading.combos (mode.read d)).map .combos
  | .magic d => (Reading.magic (mode.read d)).map .magic
  | .rowStagger d => (Reading.rowStagger (mode.read d)).map .rowStagger
  | .specialKeycodes d => (Reading.specialKeycodes (mode.read d)).map .keycodes
  | .keycodes d => .ok (.keycodes (Reading.keycodes (mode.read d)))

def session (mode : ReadingMode) : List Request → List (Result Answer)
  | [] => []
  | r :: rs => r.answer mode :: session (r.next mode) rs

end Keymap.Reading
