import Keymap.Document

namespace Keymap.Document

def sortEntries {α : Type} (entries : List (Field × α)) : List (Field × α) :=
  let isWord := fun (e : Field × α) => e.1.word?.isSome
  if entries.all isWord then entries.mergeSort fun a b => decide (a.1.text ≤ b.1.text)
  else if entries.any isWord then entries
  else entries.mergeSort fun a b =>
    match a.1, b.1 with
    | .number x, .number y => decide (x ≤ y)
    | _, _ => true

mutual

def sorted : Document → Document
  | .list items => .list (sortedItems items)
  | .record entries => .record (sortEntries (sortedEntries entries))
  | d => d

def sortedItems : List Document → List Document
  | [] => []
  | d :: ds => d.sorted :: sortedItems ds

def sortedEntries : List (Field × Document) → List (Field × Document)
  | [] => []
  | (f, d) :: es => (f, d.sorted) :: sortedEntries es

end

end Keymap.Document
