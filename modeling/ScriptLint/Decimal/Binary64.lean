/-!
# Double precision numbers

A number of the IEEE format binary64 is held by its bits. Reading rounds an exact ratio of
natural numbers to the nearest such number, a tie going to the even one, all in integer
arithmetic.

* `Binary64.ofRatio`: the nearest number to a ratio; beyond the largest it is infinity.
* `Binary64.ofDecimal`: the value of decimal digits with a point in them.
* `Binary64.significand`, `Binary64.exponent`: a finite magnitude as `significand * 2 ^ exponent`.
-/

namespace ScriptLint

/-- A double precision number. -/
structure Binary64 where
  bits : UInt64
deriving DecidableEq, Repr

/-- The nearest whole number to `n / d`, a half going to the even neighbour. -/
def roundDiv (n d : Nat) : Nat :=
  let q := n / d
  let r := n % d
  if 2 * r < d then q else if d < 2 * r then q + 1 else q + q % 2

/-- The value of decimal digits, most significant first. -/
def digitsValue (digits : List Char) : Nat :=
  digits.foldl (fun v c => 10 * v + (c.toNat - '0'.toNat)) 0

namespace Binary64

/-- The bits of positive infinity. -/
def infinityBits : Nat :=
  0x7FF0000000000000

/-- The bit of the sign. -/
def signBit : Nat :=
  0x8000000000000000

def ofParts (negative : Bool) (magnitude : Nat) : Binary64 :=
  ⟨UInt64.ofNat (min magnitude infinityBits + if negative then signBit else 0)⟩

/-- `n / d / 2 ^ q` as a ratio. -/
def scaled (n d : Nat) (q : Int) : Nat × Nat :=
  (n * Nat.pow 2 (-q).toNat, d * Nat.pow 2 q.toNat)

/-- The exponent for which `n / d` has a significand of 53 bits, or the least exponent if that is
larger. -/
def exponentFor (n d : Nat) : Int :=
  let q := max ((n.log2 : Int) - d.log2 - 53) (-1074)
  let (a, b) := scaled n d q
  if a / b < Nat.pow 2 53 then q else q + 1

/-- The number nearest to `n / d`, with the given sign. -/
def ofRatio (negative : Bool) (n d : Nat) : Binary64 :=
  if n = 0 then ofParts negative 0
  else
    let q := exponentFor n d
    let (a, b) := scaled n d q
    ofParts negative ((q + 1074).toNat * Nat.pow 2 52 + roundDiv a b)

/-- The value of decimal digits of which the last `places` stand behind the point. -/
def ofDecimal (digits : List Char) (places : Nat) : Binary64 :=
  ofRatio false (digitsValue digits) (Nat.pow 10 places)

def isNegative (x : Binary64) : Bool :=
  signBit ≤ x.bits.toNat

/-- The bits without the sign. -/
def magnitude (x : Binary64) : Nat :=
  x.bits.toNat % signBit

def isFinite (x : Binary64) : Bool :=
  x.magnitude < infinityBits

def isInfinite (x : Binary64) : Bool :=
  x.magnitude = infinityBits

/-- The biased exponent as it stands in the bits. -/
def exponentField (x : Binary64) : Nat :=
  x.magnitude / Nat.pow 2 52

/-- The whole number that multiplies the power of two, the implied bit included. -/
def significand (x : Binary64) : Nat :=
  x.magnitude % Nat.pow 2 52 + if x.exponentField = 0 then 0 else Nat.pow 2 52

/-- The power of two that the significand is multiplied by. -/
def exponent (x : Binary64) : Int :=
  (max x.exponentField 1 : Nat) - 1075

end Binary64

end ScriptLint
