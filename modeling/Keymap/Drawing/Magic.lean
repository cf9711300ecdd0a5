import Keymap.Drawing.Legend
import Keymap.Magic

namespace Keymap.Drawing

def alternateText (alternate : Document) : String :=
  match alternate with
  | .record entries =>
    let text := fun name => (entries.lookup (.word name)).bind Document.text?
    ((text "text").or (text "kc")).getD alternate.toText
  | .list items => String.join (items.map Document.toText)
  | d => d.toText

def smallLetters (text : String) : String :=
  String.join (text.toList.map fun c =>
    if Text.isLetter c then Text.lower (String.singleton c) else String.singleton c)

def smallMembers (d : Document) : Result String := do
  let parts ← (← d.members).mapM fun part => part.word "isalpha"
  return String.join (parts.map fun s => if Text.isAlphabetic s then Text.lower s else s)

def magicText (previous alternate : Document) : String :=
  if previous.isWord " " then "[ ]" ++ smallLetters (alternateText alternate)
  else smallLetters (previous.toText ++ alternateText alternate)

def isLetterPair (previous alternate : Document) : Bool :=
  match previous with
  | .text key => isSingleLetter key && isSingleLetter (alternateText alternate)
  | _ => false

def triggerNames : List (String × String) :=
  [(" ", "Space"), (",", "Comma"), (".", "Period"), ("-", "Hyphen"), ("'", "Quote")]

def capitalLabel (label : Document) : Result Document := do
  if (← label.length) = 1 then return .text (Text.upper (← label.word "upper")) else return label

def triggerLabel (keycodes : Entries) (previous : Document) : Result Document := do
  let _ ← previous.asField
  match previous.text?.bind fun key => triggerNames.lookup key with
  | some name => return name
  | none => capitalLabel (← friendlyNameOf keycodes previous)

structure MagicEntry where
  trigger : String
  label : String
  output : String
  deriving DecidableEq, Repr, Inhabited

def magicEntries (keycodes : Entries) (mappings : Entries) :
    Result (List MagicEntry × List MagicEntry) := do
  let pairs := mappings.map fun (previous, alternate) => (previous.toDocument, alternate)
  let shown := pairs.filter fun (previous, alternate) => !(magicText previous alternate).isEmpty
  let entries ← shown.mapM fun (previous, alternate) => do
    let label ← triggerLabel keycodes previous
    let entry : MagicEntry :=
      ⟨previous.toText, label.toText, magicText previous alternate⟩
    return (entry, isLetterPair previous alternate)
  let pairs := (entries.filter (·.2)).map (·.1)
  let others := (entries.filter fun e => !e.2).map (·.1)
  return (others, pairs)

def sortPairs (pairs : List MagicEntry) : List MagicEntry :=
  pairs.mergeSort fun a b => decide (Text.lower a.trigger ≤ Text.lower b.trigger)

end Keymap.Drawing
