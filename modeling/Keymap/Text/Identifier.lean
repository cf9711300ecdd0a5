import Keymap.Text.Edit

namespace Keymap.Text

def isIdentifierChar (c : Char) : Bool :=
  c.isAlphanum || c == '_'

/-- Every run of characters that an identifier cannot have becomes one underscore; `inRun` says
whether such a run has begun. -/
def identifierChars (inRun : Bool) : List Char → List Char
  | [] => []
  | c :: cs =>
    if isIdentifierChar c then c :: identifierChars false cs
    else if inRun then identifierChars true cs
    else '_' :: identifierChars true cs

def identifierFragment (s : String) : String :=
  trimBy (· == '_') (String.ofList (identifierChars false s.toList))

end Keymap.Text
