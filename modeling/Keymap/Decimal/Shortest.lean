/-!
The shortest decimal of a binary floating-point number: the fewest digits that read back as the same
number, and of those the decimal nearest to it.
-/

namespace Keymap.Decimal

/-- A positive number `mantissa · 2 ^ exponent` together with the distance to its neighbours:
`narrow` if the neighbour below is only half as far away as the one above. -/
structure Binary where
  mantissa : Nat
  exponent : Int
  narrow : Bool

def Binary.ofBits (bits : UInt64) : Binary :=
  let fraction := (bits &&& 0xFFFFFFFFFFFFF).toNat
  let biased := ((bits >>> 52) &&& 0x7FF).toNat
  if biased == 0 then ⟨fraction, -1074, false⟩
  else ⟨fraction + Nat.pow 2 52, (biased : Int) - 1075, fraction == 0 && biased > 1⟩

/-- The digits of a decimal and the place of its point: `0.d₁d₂… · 10 ^ point`. -/
structure Digits where
  digits : List Char
  point : Int

/-- Numerator and denominator of `n · 2 ^ e · 10 ^ t`. -/
def ratio (n : Nat) (e t : Int) : Nat × Nat :=
  let num := n * Nat.pow 2 e.toNat * Nat.pow 10 t.toNat
  let den := Nat.pow 2 (-e).toNat * Nat.pow 10 (-t).toNat
  (num, den)

/-- Whether `d · 10 ^ (-t)` lies among the reals that round to the number. -/
def Binary.holds (b : Binary) (d : Nat) (t : Int) : Bool :=
  let low := ratio (4 * b.mantissa - (if b.narrow then 1 else 2)) (b.exponent - 2) t
  let high := ratio (4 * b.mantissa + 2) (b.exponent - 2) t
  if b.mantissa % 2 == 0 then low.1 ≤ d * low.2 && d * high.2 ≤ high.1
  else low.1 < d * low.2 && d * high.2 < high.1

/-- The multiples of `10 ^ (-t)` on both sides of the number that read back, the nearer first. -/
def Binary.candidate (b : Binary) (t : Int) : Option Nat :=
  let (num, den) := ratio b.mantissa b.exponent t
  let below := num / den
  let twice := 2 * (num % den)
  let belowFirst := twice < den || (twice == den && below % 2 == 0)
  let order := if belowFirst then [below, below + 1] else [below + 1, below]
  order.find? fun d => d != 0 && b.holds d t

def Binary.search (b : Binary) (point : Int) : Nat → Nat → Nat × Int
  | 0, n => ((b.candidate (n - point)).getD 0, n - point)
  | fuel + 1, n =>
    match b.candidate ((n : Int) - point) with
    | some d => (d, (n : Int) - point)
    | none => b.search point fuel (n + 1)

/-- The least `p` with the number below `10 ^ p`, found from a guess that is too low. -/
def Binary.pointFrom (b : Binary) : Nat → Int → Int
  | 0, p => p
  | fuel + 1, p =>
    let (num, den) := ratio b.mantissa b.exponent (-p)
    if num < den then p else b.pointFrom fuel (p + 1)

/-- A power of ten that is not above the number: `2 ^ 10 > 10 ^ 3`. -/
def Binary.lowPoint (b : Binary) : Int :=
  (((Nat.log2 b.mantissa : Int) + b.exponent) * 30103).fdiv 100000 - 1

def Binary.shortest (b : Binary) : Digits :=
  let point := b.pointFrom 4 b.lowPoint
  let (d, t) := b.search point 17 1
  let digits := Nat.toDigits 10 d
  let trimmed := (digits.reverse.dropWhile (· == '0')).reverse
  ⟨trimmed, digits.length - t⟩

/-- Positional notation for points from -3 to 16, with at least one digit after the point; otherwise
one digit before the point and an exponent of at least two digits. -/
def Digits.text (d : Digits) : String :=
  let n : Int := d.digits.length
  if -4 < d.point && d.point ≤ 16 then
    if d.point ≤ 0 then
      "0." ++ String.ofList (List.replicate (-d.point).toNat '0' ++ d.digits)
    else if n ≤ d.point then
      String.ofList (d.digits ++ List.replicate (d.point - n).toNat '0') ++ ".0"
    else
      String.ofList (d.digits.take d.point.toNat) ++ "." ++
        String.ofList (d.digits.drop d.point.toNat)
  else
    let e := d.point - 1
    let power := String.ofList (Nat.toDigits 10 e.natAbs)
    let fraction := if n ≤ 1 then "" else "." ++ String.ofList (d.digits.drop 1)
    String.ofList (d.digits.take 1) ++ fraction ++ (if e < 0 then "e-" else "e+") ++
      (if power.length < 2 then "0" ++ power else power)

structure Double where
  bits : UInt64
  deriving DecidableEq, Repr, Inhabited

def Double.ofFloat (x : Float) : Double :=
  ⟨x.toBits⟩

def Double.toFloat (x : Double) : Float :=
  Float.ofBits x.bits

def Double.isZero (x : Double) : Bool :=
  x.bits &&& 0x7FFFFFFFFFFFFFFF == 0

def Double.text (x : Double) : String :=
  let sign := if x.bits >>> 63 == 1 then "-" else ""
  let rest := x.bits &&& 0x7FFFFFFFFFFFFFFF
  if rest > 0x7FF0000000000000 then "nan"
  else if rest == 0x7FF0000000000000 then sign ++ "inf"
  else if rest == 0 then sign ++ "0.0"
  else sign ++ (Binary.ofBits rest).shortest.text

def Double.truncate? (x : Double) : Option Int :=
  let rest := x.bits &&& 0x7FFFFFFFFFFFFFFF
  if rest ≥ 0x7FF0000000000000 then none
  else
    let b := Binary.ofBits rest
    let whole : Int := ((ratio b.mantissa b.exponent 0).1 / (ratio b.mantissa b.exponent 0).2 : Nat)
    some (if x.bits >>> 63 == 1 then -whole else whole)

end Keymap.Decimal
