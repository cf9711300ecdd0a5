import Keymap.Decimal.Shortest
import Keymap.Text.Edit
import Keymap.Text.Numeral

namespace Keymap.Decimal

/-- The value of a row of decimal digits of any script; a single underscore may stand between two
digits. -/
def readDigits? (value : Nat) (afterDigit : Bool) : List Char → Option Nat
  | [] => if afterDigit then some value else none
  | c :: cs =>
    if c == '_' then if afterDigit then readDigits? value false cs else none
    else match Text.decimalValue? c with
      | some d => readDigits? (10 * value + d) true cs
      | none => none

def readSigned? : List Char → Option Int
  | '-' :: cs => (readDigits? 0 false cs).map fun n => -(n : Int)
  | '+' :: cs => (readDigits? 0 false cs).map fun n => (n : Int)
  | cs => (readDigits? 0 false cs).map fun n => (n : Int)

inductive Unreadable where
  | form
  | tooLong (digits : Nat)
  deriving DecidableEq, Repr

def longest : Nat := 4300

def readInt (s : String) : Except Unreadable Int :=
  match readSigned? (Text.trim s).toList with
  | none => .error .form
  | some n =>
    let digits := (s.toList.filter Text.isDecimal).length
    if digits > longest then .error (.tooLong digits) else .ok n

def Unreadable.message (quoted : String) : Unreadable → String
  | .form => s!"invalid literal for int() with base 10: {quoted}"
  | .tooLong digits =>
    s!"Exceeds the limit ({longest} digits) for integer string conversion: " ++
      s!"value has {digits} digits; use sys.set_int_max_str_digits() to increase the limit"

def readNat (cs : List Char) : Nat :=
  cs.foldl (fun n c => 10 * n + (c.toNat - 48)) 0

def spanDigits (cs : List Char) : List Char × List Char :=
  (cs.takeWhile Char.isDigit, cs.dropWhile Char.isDigit)

structure Scanned where
  whole : List Char
  fraction : List Char
  exponent : Int
  isWhole : Bool
  rest : List Char

def scanExponent (cs : List Char) : Option (Int × List Char) :=
  match cs with
  | e :: cs =>
    if e == 'e' || e == 'E' then
      let (negative, cs) := match cs with
        | '-' :: cs => (true, cs)
        | '+' :: cs => (false, cs)
        | cs => (false, cs)
      let (digits, rest) := spanDigits cs
      if digits.isEmpty then none
      else some ((if negative then -(readNat digits : Int) else (readNat digits : Int)), rest)
    else none
  | [] => none

def scan (cs : List Char) : Scanned :=
  let (whole, rest) := spanDigits cs
  let (fraction, rest, hasPoint) := match rest with
    | '.' :: more =>
      let (digits, rest) := spanDigits more
      (digits, rest, true)
    | rest => ([], rest, false)
  match scanExponent rest with
  | some (e, rest) => ⟨whole, fraction, e, false, rest⟩
  | none => ⟨whole, fraction, 0, !hasPoint, rest⟩

/-- Powers of ten far outside its range are cut off first. -/
def Scanned.toDouble (s : Scanned) (negative : Bool) : Double :=
  let mantissa := readNat (s.whole ++ s.fraction)
  let lowest : Int := -400 - (s.whole ++ s.fraction).length
  let power : Int := max lowest (min 400 (s.exponent - s.fraction.length))
  let x := Float.ofScientific mantissa (power < 0) power.natAbs
  .ofFloat (if negative then -x else x)

def plainDigit (c : Char) : Char :=
  match Text.decimalValue? c with
  | some d => Char.ofNat (48 + d)
  | none => c

def dropUnderscores? (previous : Char) : List Char → Option (List Char)
  | [] => if previous == '_' then none else some []
  | c :: cs =>
    if c == '_' then if previous.isDigit then dropUnderscores? c cs else none
    else if previous == '_' && !c.isDigit then none
    else (dropUnderscores? c cs).map (c :: ·)

def named? (cs : List Char) : Option Float :=
  match String.ofList (cs.map Char.toLower) with
  | "inf" | "infinity" => some (1 / 0)
  | "nan" => some (0 / 0)
  | _ => none

def readDouble? (s : String) : Option Double := do
  let cs ← dropUnderscores? ' ' ((Text.trim s).toList.map plainDigit)
  let (negative, cs) := match cs with
    | '-' :: cs => (true, cs)
    | '+' :: cs => (false, cs)
    | cs => (false, cs)
  match named? cs with
  | some x => return .ofFloat (if negative then -x else x)
  | none =>
    let scanned := scan cs
    if scanned.rest.isEmpty && !(scanned.whole ++ scanned.fraction).isEmpty then
      return scanned.toDouble negative
    else none

end Keymap.Decimal
