import Keymap.Decimal.Shortest

namespace Keymap.Decimal.Double

def isNegative (x : Double) : Bool :=
  x.bits >>> 63 == 1

def magnitude (x : Double) : UInt64 :=
  x.bits &&& 0x7FFFFFFFFFFFFFFF

def isNaN (x : Double) : Bool :=
  x.magnitude > 0x7FF0000000000000

def isInfinite (x : Double) : Bool :=
  x.magnitude == 0x7FF0000000000000

def fraction? (x : Double) : Option (Int × Nat) :=
  if x.isNaN || x.isInfinite then none
  else
    let b := Binary.ofBits x.magnitude
    let (num, den) := ratio b.mantissa b.exponent 0
    some (if x.isNegative then -(num : Int) else num, den)

def compareTo (x : Double) (n : Int) : Option Ordering :=
  match x.fraction? with
  | some (num, den) => some (compare num (n * den))
  | none => if x.isNaN then none else some (if x.isNegative then .lt else .gt)

/-- Equality by value: both zeros are equal, and what is not a number equals nothing. -/
def same (x y : Double) : Bool :=
  x.toFloat == y.toFloat

def whole? (x : Double) : Option Int :=
  match x.fraction? with
  | some (num, den) => if num % den = 0 then some (num / den) else none
  | none => none

def ofInt? (n : Int) : Option Double :=
  let x := Float.ofInt n
  if x.isInf then none else some (.ofFloat x)

def add (x y : Double) : Double :=
  .ofFloat (x.toFloat + y.toFloat)

def sub (x y : Double) : Double :=
  .ofFloat (x.toFloat - y.toFloat)

def mul (x y : Double) : Double :=
  .ofFloat (x.toFloat * y.toFloat)

def truncatedMod (x : Double) (n : Nat) : Float :=
  match x.fraction? with
  | some (num, den) =>
    let rest := num.natAbs % (n * den)
    let r := Float.scaleB (Float.ofNat rest) (-(Nat.log2 den : Int))
    if x.isNegative then -r else r
  | none => 0 / 0

def floorMod (x : Double) (n : Nat) : Double :=
  let r := x.truncatedMod n
  .ofFloat (if r == 0 then 0 else if r < 0 then r + Float.ofNat n else r)

def floorDiv (x : Double) (n : Nat) : Double :=
  let r := x.truncatedMod n
  let quotient := (x.toFloat - r) / Float.ofNat n
  let quotient := if r < 0 then quotient - 1 else quotient
  if quotient == 0 then .ofFloat (if x.isNegative then -0.0 else 0.0)
  else
    let below := quotient.floor
    .ofFloat (if quotient - below > 0.5 then below + 1 else below)

end Keymap.Decimal.Double
