import Keymap.Document.Sorted
import Keymap.Drawing.Bindings
import Keymap.Drawing.Style
import Keymap.Magic

namespace Keymap.Drawing

structure Source where
  families : Families
  keycodes : Entries
  magic : Option MagicConfig := none
  deriving Inhabited

def Source.layers (s : Source) : List Layer :=
  s.families.layers

def ortho42 : Document :=
  .record [("split", .flag true), ("rows", .whole 3), ("columns", .whole 6), ("thumbs", .whole 3)]

def setDrawing (settings : Document) (name : String) (value : Document) : Result Document := do
  let drawing ← settings.field "draw_config"
  settings.set "draw_config" (← drawing.set name value)

def setOrtho (settings : Document) (size : LayoutSize) : Result Document :=
  match size with
  | .split42 => setDrawing settings "ortho_layout" ortho42
  | _ => .ok settings

def isMadeBinding (code : Field) : Result Bool := do
  let code ← code.toDocument.word "startswith"
  return Text.startsWith code "LT(" || Text.startsWith code "OSL(" || Text.contains code "_T(KC_"

def mergeBindings (old : Document) (made : Entries) : Result Document := do
  match old with
  | .record entries =>
    let kept ← entries.filterM fun e => return !(← isMadeBinding e.1)
    return .record (assignAll kept made)
  | d => .error (.lacking d.kind "keys")

def setBindings (settings : Document) (made : Entries) : Result Document := do
  let parse ← if ← settings.has "parse_config" then settings.field "parse_config"
    else pure (.record [])
  let old ← if ← parse.has "raw_binding_map" then parse.field "raw_binding_map"
    else pure (.record [])
  settings.set "parse_config" (← parse.set "raw_binding_map" (← mergeBindings old made))

/-- The base layers among the drawn ones, or all of the keymap if none are drawn. -/
def drawnBases (s : Source) (drawn : Option (List Layer)) : Result (List String) := do
  match drawn with
  | some (layer :: layers) =>
    let names ← (layer :: layers).mapM fun l => l.name.word "startswith"
    return names.filter Families.isBase
  | _ => return s.families.bases

def config (s : Source) (settings : Document) (size : LayoutSize) (drawn : Option (List Layer)) :
    Result Document := do
  let bases ← drawnBases s drawn
  let made ← setOrtho settings size
  let style ← styleSheet s.layers size (.list (bases.map .text)) drawn
  let made ← setDrawing made "svg_extra_style" (.text style)
  let bound ← bindings s.keycodes s.layers settings
  return (← setBindings made bound).sorted

end Keymap.Drawing
