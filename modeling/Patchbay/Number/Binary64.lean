/-!
# Doubles as exact numbers

A finite double is a whole number of units of `2^-1074`, the smallest positive double, with a sign of
its own so that there are two zeros. Comparison, truncation and rounding are exact arithmetic on
natural numbers.
-/

namespace Patchbay

/-- A double: a sign and a number of units of `2^-1074`, an infinity, or not a number. -/
inductive Binary64 where
  | finite (negative : Bool) (units : Nat)
  | infinite (negative : Bool)
  | nan
deriving DecidableEq, Repr, Inhabited

namespace Binary64

/-- How many units make one. -/
def one : Nat := Nat.pow 2 1074

/-- The first number of units beyond the largest double. -/
def limit : Nat := Nat.pow 2 2098

/-- The number of binary digits of `n`. -/
def bitLength (n : Nat) : Nat := if n = 0 then 0 else n.log2 + 1

/-- The quotient rounded to the nearest whole number, a half to the even neighbour. -/
def roundDiv (num den : Nat) : Nat :=
  let q := num / den
  let r := num % den
  if 2 * r > den || (2 * r == den && q % 2 == 1) then q + 1 else q

/-- The double nearest to `num / den` units, ties to the even one. It has at most 53 binary digits
beyond the last place in use, and is infinite from `limit` on. -/
def ofUnits (negative : Bool) (num den : Nat) : Binary64 :=
  let step := Nat.pow 2 (bitLength (num / den) - 53)
  let units := roundDiv num (den * step) * step
  if units < limit then .finite negative units else .infinite negative

/-- The double nearest to a whole number; infinite when it is too large. -/
def ofNat (n : Nat) : Binary64 := ofUnits false (n * one) 1

/-- The double nearest to `± digits · 10^exponent`. Exponents that are clearly out of range are not
raised to a power: beyond `10^310` all is infinite, below `10^-330` all is zero. -/
def ofDecimal (negative : Bool) (digits : Nat) (exponent : Int) : Binary64 :=
  if digits = 0 then .finite negative 0
  else
    let magnitude : Int := (toString digits).length + exponent
    if magnitude > 310 then .infinite negative
    else if magnitude < -330 then .finite negative 0
    else if 0 ≤ exponent then ofUnits negative (digits * Nat.pow 10 exponent.toNat * one) 1
    else ofUnits negative (digits * one) (Nat.pow 10 (-exponent).toNat)

/-- The same number with the other sign. -/
def neg : Binary64 → Binary64
  | .finite negative units => .finite (!negative) units
  | .infinite negative => .infinite (!negative)
  | .nan => .nan

instance : Neg Binary64 := ⟨neg⟩

/-- The signed number of units of a finite double. -/
def signedUnits (negative : Bool) (units : Nat) : Int := if negative then -units else units

/-- Strict order; nothing is below or above not-a-number. -/
def lt : Binary64 → Binary64 → Bool
  | .finite s m, .finite t n => decide (signedUnits s m < signedUnits t n)
  | .finite _ _, .infinite t => !t
  | .infinite s, .finite _ _ => s
  | .infinite s, .infinite t => s && !t
  | .nan, _ => false
  | _, .nan => false

/-- Order; nothing is below or above not-a-number. -/
def le : Binary64 → Binary64 → Bool
  | .finite s m, .finite t n => decide (signedUnits s m ≤ signedUnits t n)
  | .finite _ _, .infinite t => !t
  | .infinite s, .finite _ _ => s
  | .infinite s, .infinite t => s || !t
  | .nan, _ => false
  | _, .nan => false

/-- Equality of the numbers: the two zeros are equal, not-a-number is equal to nothing. -/
def sameNumber : Binary64 → Binary64 → Bool
  | .finite s m, .finite t n => decide (signedUnits s m = signedUnits t n)
  | .infinite s, .infinite t => s == t
  | _, _ => false

/-- The whole number a finite double stands for, if it is whole. -/
def toInt? : Binary64 → Option Int
  | .finite negative units =>
    if units % one = 0 then some (signedUnits negative (units / one)) else none
  | _ => none

/-- Whether the double is a finite number. -/
def isFinite : Binary64 → Bool
  | .finite _ _ => true
  | _ => false

/-- The sixty-four bits of the interchange format. -/
def bits : Binary64 → Nat
  | .finite negative units =>
    let sign := if negative then Nat.pow 2 63 else 0
    let length := bitLength units
    -- From the 53rd digit on the exponent counts the shift, and the leading digit is not written.
    if length < 53 then sign + units
    else sign + (length - 52) * Nat.pow 2 52 + (units / Nat.pow 2 (length - 53) - Nat.pow 2 52)
  | .infinite negative => (if negative then Nat.pow 2 63 else 0) + 2047 * Nat.pow 2 52
  | .nan => 2047 * Nat.pow 2 52 + Nat.pow 2 51

end Binary64

end Patchbay
