import Keymap.Decimal.Reading
import Keymap.Timing

namespace Keymap.Zmk

inductive Property where
  | number (value : Document)
  | cells (text : String)
  | text (value : Document)
  | flag
  deriving Inhabited

abbrev Properties := List (String × Property)

abbrev BehaviorTable := List (String × Properties)

namespace Property

def statement (name : String) : Property → String
  | .number value => s!"{name} = <{value.toText}>;"
  | .cells content => s!"{name} = <{content}>;"
  | .text value => s!"{name} = \"{value.toText}\";"
  | .flag => s!"{name};"

end Property

def propertyLines (properties : Properties) (excluded : List String) : List String :=
  (properties.filter fun p => !excluded.contains p.1).map fun (name, p) =>
    Text.spaces 12 ++ p.statement name

mutual

/-- A whole number in the value has more digits than are printed. -/
def isLong : Document → Bool
  | .whole n => Nat.pow 10 Decimal.longest ≤ n.natAbs
  | .list items => isLongItem items
  | .record entries => isLongEntry entries
  | _ => false

def isLongItem : List Document → Bool
  | [] => false
  | d :: ds => isLong d || isLongItem ds

def isLongEntry : Entries → Bool
  | [] => false
  | (name, d) :: es => isLong d || isLongEntry es ||
    match name with
    | .number n => Nat.pow 10 Decimal.longest ≤ n.natAbs
    | .word _ => false

end

def Property.isLong : Property → Bool
  | .number value | .text value => Zmk.isLong value
  | .cells _ | .flag => false

def unprintable : Fault :=
  .malformed (s!"Exceeds the limit ({Decimal.longest} digits) for integer string conversion; " ++
    "use sys.set_int_max_str_digits() to increase the limit")

/-- The statements of a behaviour given by name, but for the properties that are in `excluded`; any
container can say which those are. -/
def statedProperties (table : BehaviorTable) (behavior excluded : Document) :
    Result (List String) := do
  let excluded := if excluded.isPresent then excluded else .list []
  match (← behavior.asField).bind Field.word? with
  | none => return []
  | some name =>
    let kept ← ((table.lookup name).getD []).mapM fun e => do
      if ← excluded.has e.1 then return [] else return [e]
    if kept.flatten.any (·.2.isLong) then throw unprintable
    return kept.flatten.map fun (property, p) => Text.spaces 12 ++ p.statement property

def ownProperties : List String := ["compatible", "label", "binding-cells", "bindings"]

def timingProperties (t : Timing) : Properties :=
  [("tapping-term-ms", .number t.tappingTerm), ("quick-tap-ms", .number t.quickTap),
   ("flavor", .text t.flavor)] ++
  (if t.priorIdle.isNull then [] else [("require-prior-idle-ms", .number t.priorIdle)])

def isNameChar (c : Char) : Bool :=
  Text.isWordChar c || c == '-'

def skipBlanks (cs : List Char) : List Char :=
  cs.dropWhile Text.isBlank

def upTo (close : Char) (cs : List Char) : Option (String × List Char) :=
  let body := cs.takeWhile (· != close)
  match body, cs.dropWhile (· != close) with
  | _ :: _, _ :: rest => some (String.ofList body, rest)
  | _, _ => none

def valueAfterName (opening close : Char) (cs : List Char) : Option (String × List Char) :=
  match skipBlanks cs with
  | '=' :: cs =>
    match skipBlanks cs with
    | c :: cs => if c == opening then upTo close cs else none
    | [] => none
  | _ => none

def semicolonAfterName (cs : List Char) : Option (Unit × List Char) :=
  match skipBlanks cs with
  | ';' :: rest => some ((), rest)
  | _ => none

def scanNames {α : Type} (isName : Char → Bool) (after : List Char → Option (α × List Char)) :
    Nat → List Char → List (String × α)
  | 0, _ => []
  | _, [] => []
  | fuel + 1, c :: cs =>
    if isName c then
      let name := (c :: cs).takeWhile isName
      let rest := (c :: cs).dropWhile isName
      match after rest with
      | some (a, rest) => (String.ofList name, a) :: scanNames isName after fuel rest
      | none => scanNames isName after fuel rest
    else scanNames isName after fuel cs

def bracketed (block : List Char) : List (String × String) :=
  scanNames isNameChar (valueAfterName '<' '>') block.length block

def quotedValues (block : List Char) : List (String × String) :=
  scanNames isNameChar (valueAfterName '"' '"') block.length block

def flags (block : List Char) : List String :=
  (scanNames isNameChar semicolonAfterName block.length block).filterMap fun (name, _) =>
    match name.toList.dropWhile (· == '-') with
    | [] => none
    | cs => some (String.ofList cs)

def bracketedProperty (value : String) : Property :=
  let value := Text.trim value
  match Decimal.readInt value with
  | .ok n => .number (.whole n)
  | .error _ => .cells value

def readProperties (block : String) : Properties :=
  let cs := block.toList
  let numbers := (bracketed cs).map fun (n, v) => (n, bracketedProperty v)
  let texts := (quotedValues cs).map fun (n, v) => (n, Property.text v)
  let valued := assignAll [] (numbers ++ texts)
  (flags cs).foldl (fun (acc : Properties) name =>
    if (acc.lookup name).isSome || ["compatible", "label", "bindings"].contains name then acc
    else acc ++ [(name, .flag)]) valued

def propertiesOf (block : Document) : Result Properties :=
  match block with
  | .text s => .ok (readProperties s)
  | d => .error (.mismatch s!"expected string or bytes-like object, got '{d.kind}'")

/-- The first block that overrides a behaviour: `&name` and a block that is not empty. -/
def overrideBlock? (name : String) : Nat → List Char → Option String
  | 0, _ => none
  | fuel + 1, cs =>
    match Text.findSplit ('&' :: name.toList) cs with
    | none => none
    | some (_, rest) =>
      match skipBlanks rest with
      | '{' :: body =>
        match upTo '}' body with
        | some (block, _) => some block
        | none => overrideBlock? name fuel rest
      | _ => overrideBlock? name fuel rest

def nodeAfterLabel (cs : List Char) : Option (String × List Char) :=
  match cs with
  | ':' :: cs =>
    let cs := skipBlanks cs
    if (cs.takeWhile Text.isWordChar).isEmpty then none
    else match skipBlanks (cs.dropWhile Text.isWordChar) with
      | '{' :: body => upTo '}' body
      | _ => none
  | _ => none

def readBehaviors (content : String) : BehaviorTable :=
  let cs := content.toList
  let overridden := ["lt", "mt"].filterMap fun name =>
    (overrideBlock? name cs.length cs).map fun block => (name, readProperties block)
  let nodes := (scanNames Text.isWordChar nodeAfterLabel cs.length cs).filter fun (name, _) =>
    name == "hml" || name == "hmr"
  assignAll overridden (nodes.map fun (n, b) => (n, readProperties b))

/-- Layer-tap and mod-tap take their properties from the keymap. -/
def seedBehaviors (behaviors : Behaviors) (table : BehaviorTable) : BehaviorTable :=
  assign "mt" (timingProperties behaviors.modTap)
    (assign "lt" (timingProperties behaviors.layerTap) table)

end Keymap.Zmk
