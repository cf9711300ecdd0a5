import Keymap.Document

/-! How bare truth values in a file are read: as words from the first keymap on. -/

namespace Keymap

inductive ReadingMode where
  | flags
  | words
  deriving DecidableEq, Repr, Inhabited

namespace Document

mutual

/-- A truth value is read as one of two words. Other spellings, as `on` or `NO`, and truth values as names
of entries are not modelled. -/
def asWords : Document → Document
  | .flag b => .text (if b then "true" else "false")
  | .list items => .list (asWordsItems items)
  | .record entries => .record (asWordsEntries entries)
  | d => d

def asWordsItems : List Document → List Document
  | [] => []
  | d :: ds => d.asWords :: asWordsItems ds

def asWordsEntries : List (Field × Document) → List (Field × Document)
  | [] => []
  | (f, d) :: es => (f, d.asWords) :: asWordsEntries es

end

end Document

def ReadingMode.read : ReadingMode → Document → Document
  | .flags, d => d
  | .words, d => d.asWords

end Keymap
