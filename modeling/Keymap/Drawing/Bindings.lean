import Keymap.Drawing.Legend
import Keymap.Layer

namespace Keymap.Drawing

inductive DualKey where
  | layerTap (layer key : String)
  | modTap (modifier key : String)
  | oneShot (layer : String)
  deriving DecidableEq, Repr

def DualKey.ofCode? (code : String) : Option DualKey :=
  match arguments? "lt" code, arguments? "mt" code, arguments? "osl" code with
  | some [layer, key], _, _ => some (.layerTap layer key)
  | _, some [modifier, key], _ => some (.modTap modifier key)
  | _, _, some [layer] => some (.oneShot layer)
  | _, _, _ => none

def DualKey.code : DualKey → String
  | .layerTap layer key => s!"LT({layer}, KC_{smallLetter key})"
  | .modTap modifier key => s!"{modifier}_T(KC_{smallLetter key})"
  | .oneShot layer => s!"OSL({layer})"

def cellCodes (cells : List Document) : Result (List String) :=
  cells.mapM fun cell => cell.word "startswith"

def extensionCells (e : Extension) : Result (List Document) :=
  if e.keys.isPresent then e.allKeys else .ok []

def layerCodes (layer : Layer) : Result (List String) := do
  let core := match layer.core with
    | some core => core.rows.flatten.map Entry.toDocument
    | none => []
  let inCore ← cellCodes core
  let extended ← layer.extensions.mapM fun e => do cellCodes (← extensionCells e)
  return inCore ++ extended.flatten

def dualKeys (layers : List Layer) : Result (List DualKey) := do
  return ((← layers.mapM layerCodes).flatten.filterMap DualKey.ofCode?).eraseDups

def layerLegend (legends : Document) (layer : String) : Result Document :=
  legends.findD layer layer

def DualKey.binding (keycodes : Entries) (legends : Document) (k : DualKey) : Result Document := do
  let shown := fun (tap hold : Document) => Document.record [("tap", tap), ("hold", hold)]
  match k with
  | .layerTap layer key =>
    return shown (friendlyName keycodes key) (← layerLegend legends layer)
  | .modTap modifier key =>
    return shown (friendlyName keycodes key) (friendlyName keycodes modifier)
  | .oneShot layer => return shown (← layerLegend legends layer) "STICKY"

def bindings (keycodes : Entries) (layers : List Layer) (settings : Document) :
    Result Entries := do
  let parse ← settings.findD "parse_config" (.record [])
  let legends ← parse.findD "layer_legend_map" (.record [])
  let keys ← dualKeys layers
  let entries ← keys.mapM fun k => return (Field.word k.code, ← k.binding keycodes legends)
  return assignAll [] entries

end Keymap.Drawing
