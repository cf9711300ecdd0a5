import Keymap.Document.Access
import Keymap.Text.Numeral

/-!
Layout of values in a field of a template. A layout is written
`[[fill]align][sign][z][#][0][width][grouping][.precision][type]`, and every part may be left out.
-/

namespace Keymap.Format

structure Spec where
  fill : Char := ' '
  align : Option Char := none
  sign : Option Char := none
  plainZero : Bool := false
  alternate : Bool := false
  zeroFilled : Bool := false
  width : Option Nat := none
  grouping : Option Char := none
  precision : Option Nat := none
  type : Option Char := none
  deriving Repr, Inhabited

def isAlign (c : Char) : Bool :=
  c == '<' || c == '>' || c == '=' || c == '^'

def isSign (c : Char) : Bool :=
  c == ' ' || c == '+' || c == '-'

def largest : Nat := 9223372036854775807

def tooMany : Fault :=
  .malformed "Too many decimal digits in format string"

def digitsFrom (value : Nat) : List Char → Result Nat
  | [] => .ok value
  | c :: cs =>
    let next := 10 * value + (Text.decimalValue? c).getD 0
    if next > largest then .error tooMany else digitsFrom next cs

def number (cs : List Char) : Result (Option Nat × List Char) := do
  match cs.takeWhile Text.isDecimal with
  | [] => return (none, cs)
  | digits => return (some (← digitsFrom 0 digits), cs.dropWhile Text.isDecimal)

def mark (test : Char → Bool) : List Char → Option Char × List Char
  | c :: cs => if test c then (some c, cs) else (none, c :: cs)
  | [] => (none, [])

def alignment : List Char → Option Char × Option Char × List Char
  | f :: a :: cs =>
    if isAlign a then (some f, some a, cs)
    else if isAlign f then (none, some f, a :: cs)
    else (none, none, f :: a :: cs)
  | [a] => if isAlign a then (none, some a, []) else (none, none, [a])
  | [] => (none, none, [])

def bothGroupings : Fault :=
  .malformed "Cannot specify both ',' and '_'."

def groupingMark (cs : List Char) : Result (Option Char × List Char) :=
  match cs with
  | ',' :: '_' :: _ | '_' :: ',' :: _ => .error bothGroupings
  | ',' :: rest => .ok (some ',', rest)
  | '_' :: rest => .ok (some '_', rest)
  | cs => .ok (none, cs)

def precisionOf (cs : List Char) : Result (Option Nat × List Char) := do
  match cs with
  | '.' :: rest =>
    match ← number rest with
    | (none, _) => .error (.malformed "Format specifier missing precision")
    | (some n, rest) => return (some n, rest)
  | cs => return (none, cs)

def checkGrouping (s : Spec) (standard : Char) : Result Unit :=
  match s.grouping with
  | none => .ok ()
  | some g =>
    let type := s.type.getD standard
    if "defgEG%F".toList.contains type then .ok ()
    else if g == '_' && "boxX".toList.contains type then .ok ()
    else if type == ' ' then .ok ()
    else .error (.malformed s!"Cannot specify '{g}' with '{type}'.")

def Spec.read (kind : String) (standard : Char) (text : String) : Result Spec := do
  let (fill, align, cs) := alignment text.toList
  let (sign, cs) := mark isSign cs
  let (plainZero, cs) := mark (· == 'z') cs
  let (alternate, cs) := mark (· == '#') cs
  let (zero, cs) := if fill.isNone then mark (· == '0') cs else (none, cs)
  let (width, cs) ← number cs
  let (grouping, cs) ← groupingMark cs
  let (precision, cs) ← precisionOf cs
  let type ← match cs with
    | [] => pure none
    | [c] => pure (some c)
    | _ =>
      .error (.malformed
        s!"Invalid format specifier {Text.quote text} for object of type {Text.quote kind}")
  let spec : Spec := {
    fill := fill.getD (if zero.isSome then '0' else ' ')
    align, sign, plainZero := plainZero.isSome, alternate := alternate.isSome
    zeroFilled := zero.isSome, width, grouping, precision, type }
  checkGrouping spec standard
  return spec

def Spec.pad (s : Spec) (length : Nat) : Result Nat :=
  let width := s.width.getD 0
  if width ≥ Document.tooWide then .error .outOfMemory else .ok (width - length)

def Spec.place (s : Spec) (align : Char) (text : List Char) : Result String := do
  let pad ← s.pad text.length
  let fill := fun n => List.replicate n s.fill
  return String.ofList (
    if align == '>' then fill pad ++ text
    else if align == '^' then fill (pad / 2) ++ text ++ fill (pad - pad / 2)
    else text ++ fill pad)

def unknownType (type : Char) (kind : String) : Fault :=
  .malformed s!"Unknown format code '{type}' for object of type '{kind}'"

def text (spec : String) (s : String) : Result String := do
  let layout ← Spec.read "str" 's' spec
  if layout.type.getD 's' != 's' then .error (unknownType (layout.type.getD 's') "str")
  match layout.sign with
  | some ' ' => .error (.malformed "Space not allowed in string format specifier")
  | some _ => .error (.malformed "Sign not allowed in string format specifier")
  | none => pure ()
  if layout.plainZero then
    .error (.malformed "Negative zero coercion (z) not allowed in string format specifier")
  if layout.alternate then
    .error (.malformed "Alternate form (#) not allowed in string format specifier")
  if layout.align == some '=' then
    .error (.malformed "'=' alignment not allowed in string format specifier")
  let cut := match layout.precision with
    | some n => s.toList.take n
    | none => s.toList
  layout.place (layout.align.getD '<') cut

def grouped (size : Nat) (separator : Char) (digits : List Char) : List Char :=
  (digits.reverse.zipIdx.flatMap fun (c, i) =>
    if i > 0 && i % size == 0 then [separator, c] else [c]).reverse

def radix? : Char → Option (Nat × String × Nat)
  | 'd' | 'n' => some (10, "", 3)
  | 'b' => some (2, "0b", 4)
  | 'o' => some (8, "0o", 4)
  | 'x' => some (16, "0x", 4)
  | 'X' => some (16, "0X", 4)
  | _ => none

def whole (spec : String) (n : Int) : Result String := do
  let layout ← Spec.read "int" 'd' spec
  let type := layout.type.getD 'd'
  match radix? type with
  | none => .error (unknownType type "int")
  | some (base, mark, size) =>
    if layout.precision.isSome then
      .error (.malformed "Precision not allowed in integer format specifier")
    if layout.plainZero then
      .error (.malformed "Negative zero coercion (z) not allowed in format specifier with integer presentation type")
    let digits := Nat.toDigits base n.natAbs
    let digits := if type == 'X' then digits.map Char.toUpper else digits
    let digits := match layout.grouping with
      | some g => grouped size g digits
      | none => digits
    let sign := if n < 0 then ['-']
      else match layout.sign with
        | some '+' => ['+']
        | some ' ' => [' ']
        | _ => []
    let lead := sign ++ (if layout.alternate then mark.toList else [])
    let align := layout.align.getD (if layout.zeroFilled then '=' else '>')
    if align == '=' then
      let pad ← layout.pad (lead.length + digits.length)
      return String.ofList (lead ++ List.replicate pad layout.fill ++ digits)
    else layout.place align (lead ++ digits)

def decimal (spec : String) (x : Decimal.Double) : Result String := do
  let layout ← Spec.read "float" 'g' spec
  let type := layout.type.getD 'g'
  if !"eEfFgGn%".toList.contains type then .error (unknownType type "float")
  let shown := x.text.toList
  let shown := if x.isNegative then shown
    else match layout.sign with
      | some '+' => '+' :: shown
      | some ' ' => ' ' :: shown
      | _ => shown
  let align := layout.align.getD (if layout.zeroFilled then '=' else '>')
  match align, shown with
  | '=', c :: rest =>
    let pad := List.replicate (← layout.pad shown.length) layout.fill
    return String.ofList (if isSign c then c :: pad ++ rest else pad ++ shown)
  | align, shown => layout.place align shown

def value (spec : String) (d : Document) : Result String :=
  if spec.isEmpty then .ok d.toText
  else match d with
    | .text s => text spec s
    | .whole n => whole spec n
    | .flag b => whole spec (if b then 1 else 0)
    | .decimal x => decimal spec x
    | d => .error (.mismatch s!"unsupported format string passed to {d.kind}.__format__")

end Keymap.Format
