import Keymap.Vocabulary

namespace Keymap

def singleChar? (s : String) : Option Char :=
  match s.toList with
  | [c] => some c
  | _ => none

def keyCharacter? (entry : Document) : Option Char :=
  match entry with
  | .record _ =>
    let char := entry.getD "char"
    if char.isPresent then char.text?.bind singleChar?
    else (entry.getD "display_name").text?.bind singleChar?
  | _ => none

/-- If several keys type a character the last one counts. -/
def characterKeys (keycodes : Entries) : List (Char × Field) :=
  assignAll [] (keycodes.filterMap fun (name, entry) =>
    (keyCharacter? entry).map fun c => (c, name))

/-- The pieces of an alternate that stands for a text: an explicit text, a list, or a text of
several characters. All else is a single key and has none. -/
def textPieces (d : Document) : List String :=
  let chars := fun (s : String) => s.toList.map String.singleton
  match d with
  | .record _ =>
    match d.getD "text" with
    | .text s => chars s
    | _ => []
  | .list items => items.map Document.toText
  | .text s => if s.length > 1 then chars s else []
  | _ => []

end Keymap
