import ScriptLint.Decimal.Binary64

/-!
# Shortest decimal digits

The shortest decimal that reads back as a given double: of all decimals that round to it, one
with the fewest digits, and of those the nearest. The search tries one digit, two digits and so
on, and on each grid looks at the two neighbours of the value; seventeen digits always suffice.

* `Shortest.decimal`: the digits as a whole number and a power of ten.
* `Binary64.positional`: the number written without an exponent, a whole number without a point.
* `Binary64.pointed`: the same, with `.0` behind a whole number.
* `Binary64.scientific`: positional while at most sixteen digits stand before the point or four
  zeros after it, with a signed exponent otherwise.
-/

namespace ScriptLint

namespace Shortest

/-- A decimal `coefficient * 10 ^ power`. -/
structure Decimal where
  coefficient : Nat
  power : Int
deriving DecidableEq, Repr

/-- The decimals that read as one double lie between `low / unit` and `high / unit`, around
`value / unit`; the ends belong to them if `closed`. -/
structure Interval where
  low : Nat
  value : Nat
  high : Nat
  unit : Nat
  closed : Bool

/-- The decimals that round to `significand * 2 ^ exponent`. Just above a power of two the
neighbour below is only half as far. -/
def interval (x : Binary64) : Interval :=
  let m := x.significand
  let q := x.exponent - 2
  let below := if m = Nat.pow 2 52 ∧ 1 < x.exponentField then 1 else 2
  let scale := Nat.pow 2 q.toNat
  ⟨(4 * m - below) * scale, 4 * m * scale, (4 * m + 2) * scale, Nat.pow 2 (-q).toNat, m % 2 = 0⟩

/-- Does `c / u` (numbers already on one scale with the interval's ends) lie in the interval? -/
def Interval.holds (i : Interval) (up : Nat) (point : Nat) : Bool :=
  let low := i.low * up
  let high := i.high * up
  if i.closed then low ≤ point && point ≤ high else low < point && point < high

/-- The neighbour of the value on the grid of multiples of `10 ^ power` that reads back, the
nearer if both do, the upper on a tie. -/
def onGrid (i : Interval) (power : Int) : Option Nat :=
  let up := Nat.pow 10 (-power).toNat
  let step := i.unit * Nat.pow 10 power.toNat
  let value := i.value * up
  let c := value / step
  let r := value % step
  match i.holds up (c * step), i.holds up ((c + 1) * step) with
  | true, true => some (if 2 * r < step then c else c + 1)
  | true, false => some c
  | false, true => some (c + 1)
  | false, false => none

/-- The least `e` with `value < 10 ^ e`. -/
def magnitude (i : Interval) : Int :=
  if i.unit ≤ i.value then ((Nat.toDigits 10 (i.value / i.unit)).length : Int)
  else
    let zeros := ((List.range 400).find? (fun k => i.unit ≤ i.value * Nat.pow 10 (k + 1))).getD 0
    Int.negOfNat zeros

/-- The coefficient without the zeros at its end. -/
def strip : Nat → Nat → Int → Decimal
  | 0, c, p => ⟨c, p⟩
  | fuel + 1, c, p => if c ≠ 0 ∧ c % 10 = 0 then strip fuel (c / 10) (p + 1) else ⟨c, p⟩

/-- The shortest decimal that reads back as a finite number's magnitude. -/
def decimal (x : Binary64) : Decimal :=
  if x.significand = 0 then ⟨0, 0⟩
  else
    let i := interval x
    let e := magnitude i
    let hit := (List.range 17).findSome? fun (n : Nat) =>
      let power := e - (n + 1 : Nat)
      (onGrid i power).map fun c => (c, power)
    match hit with
    | some (c, power) => strip 20 c power
    | none => ⟨0, 0⟩

end Shortest

namespace Binary64

/-- Text of an infinity or of what is no number. -/
def special (x : Binary64) : String :=
  if x.isInfinite then (if x.isNegative then "-inf" else "inf") else "NaN"

def sign (x : Binary64) : String :=
  if x.isNegative then "-" else ""

/-- Digits with a point before the last `places` of them, zeros filling the front. -/
def withPoint (digits : List Char) (places : Nat) : String :=
  let padded := List.replicate (places + 1 - digits.length) '0' ++ digits
  let whole := padded.length - places
  String.ofList (padded.take whole ++ '.' :: padded.drop whole)

/-- The number with the fewest digits that read back, without an exponent. -/
def positional (x : Binary64) : String :=
  if x.isFinite then
    let d := Shortest.decimal x
    let digits := Nat.toDigits 10 d.coefficient
    x.sign ++
      if 0 ≤ d.power then String.ofList (digits ++ List.replicate d.power.toNat '0')
      else withPoint digits (-d.power).toNat
  else x.special

/-- `positional`, with `.0` behind a finite whole number. -/
def pointed (x : Binary64) : String :=
  let text := x.positional
  if x.isFinite && !text.toList.contains '.' then text ++ ".0" else text

/-- A power of ten as it stands behind a coefficient, with its sign. -/
def exponentText (e : Int) : String :=
  if e < 0 then "e-" ++ toString e.natAbs else "e+" ++ toString e.natAbs

/-- `pointed` for numbers of middling size, and with an exponent for others. -/
def scientific (x : Binary64) : String :=
  if !x.isFinite then x.special
  else
    let d := Shortest.decimal x
    let digits := Nat.toDigits 10 d.coefficient
    let e : Int := digits.length + d.power
    if d.coefficient = 0 ∨ (-5 < e ∧ e ≤ 16) then x.pointed
    else
      let tail := if digits.length = 1 then [] else '.' :: digits.drop 1
      x.sign ++ String.ofList (digits.take 1 ++ tail) ++ exponentText (e - 1)

end Binary64

end ScriptLint
