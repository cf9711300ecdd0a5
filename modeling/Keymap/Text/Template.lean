import Keymap.Document.Format

/-!
Text templates: a field in braces stands for an argument, and a doubled brace for a brace. A field
is `name[.part or [index]]…[!conversion][:layout]`, and a layout may hold fields itself.
-/

namespace Keymap.Template

structure Slot where
  name : List Char
  conversion : Option Char := none
  layout : List Char := []
  deriving Repr, Inhabited

/-- The name of a field, what ended it and the rest. An index in brackets may hold anything. -/
def slotName (inBrackets : Bool) : List Char → Result (List Char × Option Char × List Char)
  | [] => .ok ([], none, [])
  | c :: cs =>
    if inBrackets then do
      let (name, stop, rest) ← slotName (c != ']') cs
      return (c :: name, stop, rest)
    else if c == '{' then .error (.malformed "unexpected '\x7b' in field name")
    else if c == '}' || c == ':' || c == '!' then .ok ([], some c, cs)
    else do
      let (name, stop, rest) ← slotName (c == '[') cs
      return (c :: name, stop, rest)

def slotLayout (depth : Nat) : List Char → Result (List Char × List Char)
  | [] => .error (.malformed "unmatched '\x7b' in format spec")
  | '}' :: cs =>
    match depth with
    | 0 => .ok ([], cs)
    | depth + 1 => do
      let (layout, rest) ← slotLayout depth cs
      return ('}' :: layout, rest)
  | c :: cs => do
    let (layout, rest) ← slotLayout (if c == '{' then depth + 1 else depth) cs
    return (c :: layout, rest)

def slot (cs : List Char) : Result (Slot × List Char) := do
  let (name, stop, rest) ← slotName false cs
  match stop, rest with
  | some '}', rest => return ({ name }, rest)
  | some ':', rest =>
    let (layout, rest) ← slotLayout 0 rest
    return ({ name, layout }, rest)
  | some _, [] =>
    .error (.malformed "end of string while looking for conversion specifier")
  | some _, c :: '}' :: rest => return ({ name, conversion := some c }, rest)
  | some _, c :: ':' :: rest =>
    let (layout, rest) ← slotLayout 0 rest
    return ({ name, conversion := some c, layout }, rest)
  | some _, [_] => .error (.malformed "unmatched '\x7b' in format spec")
  | some _, _ => .error (.malformed "expected ':' after conversion specifier")
  | none, _ => .error (.malformed "expected '\x7d' before end of string")

def position? (name : List Char) : Result (Option Nat) :=
  if !name.isEmpty && name.all Text.isDecimal then (Format.digitsFrom 0 name).map some else .ok none

inductive Step where
  | part (name : String)
  | index (i : Nat)
  | key (name : String)

def emptyPart : Fault :=
  .malformed "Empty attribute in format string"

/-- The steps after a name. Each is read when it is taken, so that the first fault counts. -/
def nextStep (cs : List Char) : Result (Step × List Char) :=
  match cs with
  | '.' :: rest =>
    let isPart := fun (c : Char) => c != '.' && c != '['
    match rest.takeWhile isPart with
    | [] => .error emptyPart
    | name => .ok (.part (String.ofList name), rest.dropWhile isPart)
  | '[' :: rest =>
    match rest.dropWhile (· != ']') with
    | [] => .error (.malformed "Missing ']' in format string")
    | _ :: after => do
      let name := rest.takeWhile (· != ']')
      match ← position? name with
      | some i => return (.index i, after)
      | none =>
        if name.isEmpty then .error emptyPart else return (.key (String.ofList name), after)
  | _ => .error (.malformed "Only '.' or '[' may follow ']' in format field specifier")

def Step.take (d : Document) : Step → Result Document
  | .part name => .error (.lacking d.kind name)
  | .index i => d.item i
  | .key name => d.field (.word name)

def walk : Nat → Document → List Char → Result Document
  | 0, d, _ => .ok d
  | _, d, [] => .ok d
  | fuel + 1, d, cs => do
    let (step, rest) ← nextStep cs
    walk fuel (← step.take d) rest

/-- The value of a field. A field without a name, or with a number, would be filled by position, and
there are no positional arguments. -/
def lookup (args : List (String × Document)) (name : List Char) : Result Document := do
  let isFirst := fun (c : Char) => c != '.' && c != '['
  let first := name.takeWhile isFirst
  let position ← position? first
  if first.isEmpty || position.isSome then
    let i := position.getD 0
    .error (.outOfRange s!"Replacement index {i} out of range for positional args tuple")
  match args.lookup (String.ofList first) with
  | none => .error (.missing (String.ofList first))
  | some d => walk name.length d (name.dropWhile isFirst)

def escapeWide (c : Char) : List Char :=
  if c.toNat < 128 then [c] else Text.escapeHidden c

def convert (d : Document) : Option Char → Result Document
  | none => .ok d
  | some 's' => .ok (.text d.toText)
  | some 'r' => .ok (.text d.quoted)
  | some 'a' => .ok (.text (String.ofList (d.quoted.toList.flatMap escapeWide)))
  | some c => .error (.malformed s!"Unknown conversion specifier {c}")

/-- Expands a template. `depth` bounds how deep fields stand inside layouts, and `fuel` is more than
the length of the text. -/
def expandFrom (args : List (String × Document)) :
    Nat → Nat → List Char → Result (List Char)
  | 0, _, _ => .error (.malformed "Max string recursion exceeded")
  | _ + 1, 0, _ => .ok []
  | _ + 1, _ + 1, [] => .ok []
  | depth + 1, fuel + 1, '{' :: '{' :: cs =>
    (expandFrom args (depth + 1) fuel cs).map ('{' :: ·)
  | _ + 1, _ + 1, ['{'] => .error (.malformed "Single '\x7b' encountered in format string")
  | depth + 1, fuel + 1, '{' :: cs => do
    let (s, rest) ← slot cs
    let d ← convert (← lookup args s.name) s.conversion
    let layout ← if s.layout.contains '{' then expandFrom args depth fuel s.layout
      else pure s.layout
    let shown ← Format.value (String.ofList layout) d
    return shown.toList ++ (← expandFrom args (depth + 1) fuel rest)
  | depth + 1, fuel + 1, '}' :: '}' :: cs =>
    (expandFrom args (depth + 1) fuel cs).map ('}' :: ·)
  | _ + 1, _ + 1, '}' :: _ => .error (.malformed "Single '\x7d' encountered in format string")
  | depth + 1, fuel + 1, c :: cs => (expandFrom args (depth + 1) fuel cs).map (c :: ·)

def expand (template : String) (args : List (String × Document)) : Result String :=
  (expandFrom args 2 (template.length + 1) template.toList).map String.ofList

end Keymap.Template
