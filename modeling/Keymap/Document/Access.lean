import Keymap.Fault

namespace Keymap

def Field.isBefore : Field → Field → Bool
  | .number a, .number b => a ≤ b
  | .number _, .word _ => true
  | .word _, .number _ => false
  | .word a, .word b => a ≤ b

def Field.setText (names : List Field) : String :=
  "\x7b" ++ Text.join ", " ((names.eraseDups.mergeSort Field.isBefore).map Field.quoted) ++ "\x7d"

namespace Document

def word (d : Document) (part : String) : Result String :=
  match d with
  | .text s => .ok s
  | d => .error (.lacking d.kind part)

def entries (d : Document) : Result Entries :=
  match d with
  | .record entries => .ok entries
  | d => .error (.lacking d.kind "items")

def asField (d : Document) : Result (Option Field) :=
  match d with
  | .list _ | .record _ => .error (.mismatch s!"unhashable type: '{d.kind}'")
  | d => .ok (Field.ofDocument? d)

def find (d : Document) (field : Field) : Result (Option Document) :=
  match d with
  | .record entries => .ok (entries.lookup field)
  | d => .error (.lacking d.kind "get")

def findD (d : Document) (field : Field) (default : Document) : Result Document := do
  return (← d.find field).getD default

def holds (d x : Document) : Result Bool :=
  match d with
  | .record entries => do
    match ← x.asField with
    | some f => return (entries.lookup f).isSome
    | none => return false
  | .list items => .ok (items.any fun item => item.same x)
  | .text s =>
    match x with
    | .text part => .ok (Text.contains s part)
    | x => .error (.mismatch s!"'in <string>' requires string as left operand, not {x.kind}")
  | d => .error (.mismatch s!"argument of type '{d.kind}' is not iterable")

def has (d : Document) (name : String) : Result Bool :=
  d.holds (.text name)

def length (d : Document) : Result Nat :=
  match d with
  | .list items => .ok items.length
  | .text s => .ok s.length
  | .record entries => .ok entries.length
  | d => .error (.mismatch s!"object of type '{d.kind}' has no len()")

/-- Sizes and positions are numbers of 64 bits with a sign. -/
def isSize (n : Int) : Bool :=
  -9223372036854775808 ≤ n && n ≤ 9223372036854775807

def tooLarge : String :=
  "cannot fit 'int' into an index-sized integer"

def tooWide : Nat := 34359738368

def elementAt {α : Type} (what : String) (xs : List α) (i : Int) : Result α := do
  if !isSize i then throw (.outOfRange tooLarge)
  let i := if i < 0 then i + xs.length else i
  match if i < 0 then none else xs[i.toNat]? with
  | some x => .ok x
  | none => .error (.outOfRange s!"{what} index out of range")

def elementBy {α : Type} (xs : List α) (i : Document) : Result α :=
  match i with
  | .whole n => elementAt "list" xs n
  | .flag b => elementAt "list" xs (if b then 1 else 0)
  | d => .error (.mismatch s!"list indices must be integers or slices, not {d.kind}")

def item (d : Document) (i : Int) : Result Document :=
  match d with
  | .list items => elementAt "list" items i
  | .text s => (elementAt "string" s.toList i).map fun c => .text (String.singleton c)
  | .record entries =>
    match entries.lookup (.number i) with
    | some v => .ok v
    | none => .error (.missing (.number i))
  | d => .error (.mismatch s!"'{d.kind}' object is not subscriptable")

def field (d : Document) (name : Field) : Result Document :=
  match name, d with
  | .number i, d => d.item i
  | name, .record entries =>
    match entries.lookup name with
    | some v => .ok v
    | none => .error (.missing name)
  | _, .list _ => .error (.mismatch "list indices must be integers or slices, not str")
  | _, .text _ => .error (.mismatch "string indices must be integers, not 'str'")
  | _, d => .error (.mismatch s!"'{d.kind}' object is not subscriptable")

def set (d : Document) (name : Field) (value : Document) : Result Document :=
  match d, name with
  | .record entries, name => .ok (.record (assign name value entries))
  | .list items, .number i =>
    let i := if i < 0 then i + items.length else i
    if 0 ≤ i ∧ i < items.length then .ok (.list (items.set i.toNat value))
    else .error (.outOfRange "list assignment index out of range")
  | .list _, .word _ => .error (.mismatch "list indices must be integers or slices, not str")
  | d, _ => .error (.mismatch s!"'{d.kind}' object does not support item assignment")

def members (d : Document) : Result (List Document) :=
  match d with
  | .list items => .ok items
  | .text s => .ok (s.toList.map fun c => .text (String.singleton c))
  | .record entries => .ok (entries.map fun e => e.1.toDocument)
  | d => .error (.mismatch s!"'{d.kind}' object is not iterable")

def select (d key : Document) : Result Document :=
  match d with
  | .record entries => do
    match (← key.asField).bind fun f => entries.lookup f with
    | some v => return v
    | none => .error (.noEntry key)
  | .list items => elementBy items key
  | .text _ =>
    match key with
    | .whole n => d.item n
    | .flag b => d.item (if b then 1 else 0)
    | key => .error (.mismatch s!"string indices must be integers, not '{key.kind}'")
  | d => .error (.mismatch s!"'{d.kind}' object is not subscriptable")

def sequence (d : Document) : Result (List Document) :=
  match d with
  | .list _ | .text _ => d.members
  | .record _ => .error (.mismatch "unhashable type: 'slice'")
  | d => .error (.mismatch s!"'{d.kind}' object is not subscriptable")

def searched (d : Document) : Result String :=
  match d with
  | .text s => .ok s
  | d => .error (.mismatch s!"expected string or bytes-like object, got '{d.kind}'")

def mapText (f : String → String) : Document → Document
  | .text s => .text (f s)
  | d => d

def pair (d : Document) : Result (Document × Document) := do
  let members ← match d.members with
    | .ok members => pure members
    | .error _ => .error (.mismatch s!"cannot unpack non-iterable {d.kind} object")
  match members with
  | [a, b] => return (a, b)
  | _ :: _ :: _ :: _ => .error (.malformed "too many values to unpack (expected 2)")
  | few => .error (.malformed s!"not enough values to unpack (expected 2, got {few.length})")

def checkTextsFrom (i : Nat) : List Document → Result (List String)
  | [] => .ok []
  | .text s :: ds => do return s :: (← checkTextsFrom (i + 1) ds)
  | d :: _ => .error (.mismatch s!"sequence item {i}: expected str instance, {d.kind} found")

inductive Number where
  | whole (n : Int)
  | decimal (x : Decimal.Double)

def number? : Document → Option Number
  | .whole n => some (.whole n)
  | .flag b => some (.whole (if b then 1 else 0))
  | .decimal x => some (.decimal x)
  | _ => none

def areOrdered (a b : Document) : Bool :=
  match a, b with
  | .text _, .text _ => true
  | a, b => a.number?.isSome && b.number?.isSome

def checkOrdered : List Document → Result Unit
  | a :: b :: rest =>
    if a.areOrdered b then checkOrdered (b :: rest)
    else .error
      (.mismatch s!"'<' not supported between instances of '{b.kind}' and '{a.kind}'")
  | _ => .ok ()

def sortedNames (d : Document) : Result (List Field) := do
  let names := (← d.entries).map (·.1)
  checkOrdered (names.map Field.toDocument)
  return names.mergeSort Field.isBefore

def joinTexts (sep : String) (ds : List Document) : Result String :=
  (checkTextsFrom 0 ds).map (Text.join sep)

/-- A value in a column: texts stand on the left and numbers on the right. A truth value is shown as
a number here. -/
def padded (width : Nat) (d : Document) : Result String :=
  match d with
  | .text s => .ok (Text.padRight width s)
  | .whole n => .ok (Text.padLeft width (toString n))
  | .flag b => .ok (Text.padLeft width (if b then "1" else "0"))
  | .decimal x => .ok (Text.padLeft width x.text)
  | d => .error (.mismatch s!"unsupported format string passed to {d.kind}.__format__")

def comparable (symbol : String) (d : Document) : Result Number :=
  match d.number? with
  | some x => .ok x
  | none =>
    .error (.mismatch s!"'{symbol}' not supported between instances of '{d.kind}' and 'int'")

def compareWith (symbol : String) (test : Ordering → Bool) (d : Document) (n : Int) :
    Result Bool := do
  match ← d.comparable symbol with
  | .whole m => return test (compare m n)
  | .decimal x => return (x.compareTo n).any test

def isBelow (d : Document) (n : Int) : Result Bool :=
  d.compareWith "<" (· == .lt) n

def isAbove (d : Document) (n : Int) : Result Bool :=
  d.compareWith ">" (· == .gt) n

def isAtLeast (d : Document) (n : Int) : Result Bool :=
  d.compareWith ">=" (· != .lt) n

namespace Number

def toDocument : Number → Document
  | .whole n => .whole n
  | .decimal x => .decimal x

def plus (a : Number) (n : Int) : Number :=
  match a with
  | .whole m => .whole (m + n)
  | .decimal x => .decimal (x.add (.ofFloat (Float.ofInt n)))

def times (a : Number) (n : Int) : Number :=
  match a with
  | .whole m => .whole (m * n)
  | .decimal x => .decimal (x.mul (.ofFloat (Float.ofInt n)))

def floorDiv (a : Number) (n : Nat) : Number :=
  match a with
  | .whole m => .whole (m / n)
  | .decimal x => .decimal (x.floorDiv n)

def floorMod (a : Number) (n : Nat) : Number :=
  match a with
  | .whole m => .whole (m % n)
  | .decimal x => .decimal (x.floorMod n)

def sum : Number → Number → Number
  | .whole m, b => b.plus m
  | a, .whole n => a.plus n
  | .decimal x, .decimal y => .decimal (x.add y)

def add (a b : Number) : Result Number :=
  match a, b with
  | .whole m, .decimal _ | .decimal _, .whole m =>
    if (Decimal.Double.ofInt? m).isSome then .ok (a.sum b)
    else .error (.overflow "int too large to convert to float")
  | a, b => .ok (a.sum b)

def isBelow (a : Number) (n : Int) : Bool :=
  match a with
  | .whole m => m < n
  | .decimal x => x.compareTo n == some .lt

def isAtLeast (a : Number) (n : Int) : Bool :=
  match a with
  | .whole m => m ≥ n
  | .decimal x => (x.compareTo n).any (· != .lt)

end Number

def append (a b : Document) : Result Document :=
  match a, b with
  | .list xs, .list ys => .ok (.list (xs ++ ys))
  | .text x, .text y => .ok (.text (x ++ y))
  | .list _, b => .error (.mismatch s!"can only concatenate list (not \"{b.kind}\") to list")
  | .text _, b => .error (.mismatch s!"can only concatenate str (not \"{b.kind}\") to str")
  | a, b =>
    match a.number?, b.number? with
    | some x, some y => (x.add y).map Number.toDocument
    | _, _ =>
      .error (.mismatch s!"unsupported operand type(s) for +: '{a.kind}' and '{b.kind}'")

def put (name value : Document) (pairs : List (Document × Document)) :
    Result (List (Document × Document)) := do
  let _ ← name.asField
  if pairs.any fun p => p.1.same name then
    return pairs.map fun p => if p.1.same name then (p.1, value) else p
  else return pairs ++ [(name, value)]

def checkForm (required optional : List String) (d : Document) : Result Unit := do
  let entries ← match d with
    | .record entries => pure entries
    | d => .error (.mismatch s!"argument after ** must be a mapping, not {d.kind}")
  for (f, _) in entries do
    if !(required ++ optional).contains f.text then
      .error (.mismatch s!"unexpected field {Text.quote f.text}")
  for name in required do
    if (entries.lookup (.word name)).isNone then
      .error (.mismatch s!"missing field {Text.quote name}")

end Document

end Keymap
