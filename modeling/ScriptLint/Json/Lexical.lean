import ScriptLint.Decimal.Binary64

/-!
# Strings and numbers of JSON text

* `JsonText.parts?`: the inside of a string, escapes told apart but not yet joined.
* `JsonText.join?`: the characters that the parts stand for; halves of a pair of UTF-16 units
  that stand alone stand for none.
* `JsonText.number?`: the pieces of a number.
* `NumberText.int?`, `NumberText.float?`: its value. A whole number of 64 bits is an integer;
  any other is a double, unless it is too large for one.
-/

namespace ScriptLint

namespace JsonText

/-- A character of a string, or a UTF-16 unit written as an escape. -/
inductive Part
  | char (c : Char)
  | unit (n : Nat)
deriving DecidableEq, Repr

def hexValue? (c : Char) : Option Nat :=
  if c.isDigit then some (c.toNat - '0'.toNat)
  else if 'a' ≤ c ∧ c ≤ 'f' then some (c.toNat - 'a'.toNat + 10)
  else if 'A' ≤ c ∧ c ≤ 'F' then some (c.toNat - 'A'.toNat + 10)
  else none

/-- The number that hexadecimal digits write. -/
def hexNumber? (digits : List Char) : Option Nat :=
  digits.foldl (fun n c => do return 16 * (← n) + (← hexValue? c)) (some 0)

/-- What a backslash and a letter stand for. -/
def escape? : Char → Option Char
  | '"' => some '"'
  | '\\' => some '\\'
  | '/' => some '/'
  | 'b' => some '\x08'
  | 'f' => some '\x0c'
  | 'n' => some '\n'
  | 'r' => some '\r'
  | 't' => some '\t'
  | _ => none

/-- The parts of a string up to its closing quote, and the text behind it. -/
def parts? : List Char → Option (List Part × List Char)
  | '\\' :: 'u' :: a :: b :: c :: d :: cs => do
    let n ← hexNumber? [a, b, c, d]
    let (parts, rest) ← parts? cs
    return (.unit n :: parts, rest)
  | '\\' :: e :: cs => do
    let c ← escape? e
    let (parts, rest) ← parts? cs
    return (.char c :: parts, rest)
  | c :: cs =>
    if c = '"' then some ([], cs)
    else if c = '\\' ∨ c.toNat < 0x20 then none
    else do
      let (parts, rest) ← parts? cs
      return (.char c :: parts, rest)
  | [] => none

/-- The characters that parts stand for. -/
def join? : List Part → Option (List Char)
  | [] => some []
  | .char c :: ps => do return c :: (← join? ps)
  | .unit n :: .unit m :: ps =>
    if 0xD800 ≤ n ∧ n < 0xDC00 then
      if 0xDC00 ≤ m ∧ m < 0xE000 then do
        return Char.ofNat (0x10000 + (n - 0xD800) * 0x400 + (m - 0xDC00)) :: (← join? ps)
      else none
    else if 0xDC00 ≤ n ∧ n < 0xE000 then none
    else do return Char.ofNat n :: (← join? (.unit m :: ps))
  | .unit n :: ps =>
    if 0xD800 ≤ n ∧ n < 0xE000 then none
    else do return Char.ofNat n :: (← join? ps)

end JsonText

/-- The pieces of a number. -/
structure NumberText where
  negative : Bool
  whole : List Char
  places : List Char
  hasPoint : Bool
  exponent : Option Int
deriving DecidableEq, Repr

namespace JsonText

/-- The text with its sign taken off. -/
def sign : List Char → Bool × List Char
  | '-' :: cs => (true, cs)
  | cs => (false, cs)

/-- Digits that do not begin with an idle zero. -/
def whole? (cs : List Char) : Option (List Char × List Char) :=
  let digits := cs.takeWhile Char.isDigit
  if digits = [] ∨ (digits.head? = some '0' ∧ 1 < digits.length) then none
  else some (digits, cs.drop digits.length)

/-- A point and digits behind it, if there is a point. -/
def places? : List Char → Option (Option (List Char) × List Char)
  | '.' :: cs =>
    let digits := cs.takeWhile Char.isDigit
    if digits = [] then none else some (some digits, cs.drop digits.length)
  | cs => some (none, cs)

/-- The digits of an exponent. -/
def exponentDigits? (negative : Bool) (cs : List Char) : Option (Option Int × List Char) :=
  let digits := cs.takeWhile Char.isDigit
  if digits = [] then none
  else
    let n : Int := digitsValue digits
    some (some (if negative then -n else n), cs.drop digits.length)

/-- An exponent, if there is one. -/
def exponent? : List Char → Option (Option Int × List Char)
  | c :: cs =>
    if c = 'e' ∨ c = 'E' then
      match cs with
      | '+' :: ds => exponentDigits? false ds
      | '-' :: ds => exponentDigits? true ds
      | ds => exponentDigits? false ds
    else some (none, c :: cs)
  | [] => some (none, [])

/-- The number that a text begins with, and the text behind it. -/
def number? (cs : List Char) : Option (NumberText × List Char) := do
  let (negative, cs) := sign cs
  let (whole, cs) ← whole? cs
  let (places, cs) ← places? cs
  let (exponent, cs) ← exponent? cs
  return (⟨negative, whole, places.getD [], places.isSome, exponent⟩, cs)

end JsonText

namespace Binary64

/-- A finite magnitude as a ratio. -/
def ratio (x : Binary64) : Nat × Nat :=
  (x.significand * Nat.pow 2 x.exponent.toNat, Nat.pow 2 (-x.exponent).toNat)

/-- The product of two finite magnitudes. -/
def times (x y : Binary64) : Binary64 :=
  ofRatio false (x.ratio.1 * y.ratio.1) (x.ratio.2 * y.ratio.2)

/-- The quotient of two finite magnitudes. -/
def dividedBy (x y : Binary64) : Binary64 :=
  ofRatio false (x.ratio.1 * y.ratio.2) (x.ratio.2 * y.ratio.1)

/-- A power of ten. -/
def tenTo (e : Nat) : Binary64 :=
  ofRatio false (Nat.pow 10 e) 1

/-- The largest power of ten that is a double. -/
def maxTen : Nat :=
  308

/-- `x / 10 ^ e`, in steps of the largest power of ten. -/
def downBy (x : Binary64) (e : Nat) : Binary64 :=
  if e ≤ maxTen ∨ x.magnitude = 0 then (if e ≤ maxTen then x.dividedBy (tenTo e) else x)
  else downBy (x.dividedBy (tenTo maxTen)) (e - maxTen)
termination_by e
decreasing_by simp only [maxTen] at *; omega

/-- `x * 10 ^ e`, if that is finite. -/
def scaleBy? (x : Binary64) (e : Int) : Option Binary64 :=
  if e < 0 then some (x.downBy (-e).toNat)
  else if x.magnitude = 0 then some x
  else if maxTen < e.toNat then none
  else
    let y := x.times (tenTo e.toNat)
    if y.isFinite then some y else none

end Binary64

namespace NumberText

/-- Adds digits to a number while it fits into 64 bits; the number of digits left over. -/
def absorb (n : Nat) : List Char → Nat × Nat
  | [] => (n, 0)
  | c :: cs =>
    let next := 10 * n + (c.toNat - '0'.toNat)
    if next < UInt64.size then absorb next cs else (n, cs.length + 1)

/-- Is it written without point and exponent? -/
def isWhole (t : NumberText) : Bool :=
  !t.hasPoint && t.exponent.isNone

/-- The integer of 64 bits that it is, if it is one. A zero with a sign is none. -/
def int? (t : NumberText) : Option Int :=
  let n := digitsValue t.whole
  if !t.isWhole then none
  else if t.negative then (if 0 < n ∧ n ≤ Nat.pow 2 63 then some (-(n : Int)) else none)
  else if n < UInt64.size then some n
  else none

/-- The double that it is, if it is not too large. Digits for which 64 bits do not suffice are left
out, and the rest is scaled by a power of ten. -/
def float? (t : NumberText) : Option Binary64 := do
  let (n, dropped) := absorb 0 t.whole
  let (m, extra) := absorb n t.places
  let power : Int := (dropped : Int) - (t.places.length - extra : Nat) + t.exponent.getD 0
  let x ← (Binary64.ofRatio false m 1).scaleBy? power
  return Binary64.ofParts t.negative x.magnitude

end NumberText

end ScriptLint
