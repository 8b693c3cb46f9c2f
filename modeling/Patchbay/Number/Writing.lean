import Patchbay.Number.Binary64

/-!
# Writing doubles in decimal

Two texts of a double: the shortest one that reads back as the same double, and the one rounded to six
significant digits. Both are positional for moderate exponents and scientific otherwise.
-/

namespace Patchbay.Number

/-- Decimal digits of a natural number, most significant first. -/
def digitsOf (n : Nat) : List Char := (toString n).toList

/-- The least `k` from `start` on, at most `fuel` further, for which `units · 10^k` reaches one. -/
def leadingPlace (units : Nat) : (fuel start : Nat) → Nat
  | 0, start => start
  | fuel + 1, start =>
    if Binary64.one ≤ units * Nat.pow 10 start then start else leadingPlace units fuel (start + 1)

/-- The exponent of ten of the first significant digit of a positive number of units. No positive
double is below `10^-324`, so four hundred steps reach the first digit. -/
def decimalExponent (units : Nat) : Int :=
  if Binary64.one ≤ units then (digitsOf (units / Binary64.one)).length - 1
  else -(leadingPlace units 400 1 : Nat)

/-- `units` divided by ten to the power `place`, as numerator and denominator. -/
def scaled (units : Nat) (place : Int) : Nat × Nat :=
  if 0 ≤ place then (units, Binary64.one * Nat.pow 10 place.toNat)
  else (units * Nat.pow 10 (-place).toNat, Binary64.one)

/-- Significant digits and the exponent of ten of the first of them. -/
structure Significant where
  digits : Nat
  exponent : Int
deriving DecidableEq, Repr

/-- The positive number rounded to `count` significant digits, a half to the even neighbour. -/
def roundSignificant (count units : Nat) : Significant :=
  let exponent := decimalExponent units
  let (num, den) := scaled units (exponent - (count - 1))
  let digits := Binary64.roundDiv num den
  -- Rounding up may reach the next power of ten.
  if digits = Nat.pow 10 count then ⟨Nat.pow 10 (count - 1), exponent + 1⟩ else ⟨digits, exponent⟩

/-- Whether `digits · 10^place` reads back as the double of so many units. -/
def readsBack (units digits : Nat) (place : Int) : Bool :=
  Binary64.ofDecimal false digits place == .finite false units

/-- The fewest significant digits, from `count` on, that read back as the same double; of two such
neighbours the nearer one. Seventeen digits always do. -/
def shortestFrom (units : Nat) : (fuel count : Nat) → Significant
  | 0, count => roundSignificant count units
  | fuel + 1, count =>
    let exponent := decimalExponent units
    let place := exponent - (count - 1)
    let (num, den) := scaled units place
    let below := num / den
    let nearest := Binary64.roundDiv num den
    let other := if nearest = below then below + 1 else below
    if readsBack units nearest place then
      if nearest = Nat.pow 10 count then ⟨Nat.pow 10 (count - 1), exponent + 1⟩ else ⟨nearest, exponent⟩
    else if readsBack units other place then
      if other = Nat.pow 10 count then ⟨Nat.pow 10 (count - 1), exponent + 1⟩ else ⟨other, exponent⟩
    else shortestFrom units fuel (count + 1)

/-- Which exponents are written positionally, and whether a whole number shows a fraction. -/
structure Layout where
  positionalBelow : Int
  pointZero : Bool

/-- Removes zeros at the end of a list of digits. -/
def dropTrailingZeros (digits : List Char) : List Char :=
  (digits.reverse.dropWhile (· == '0')).reverse

/-- An exponent of ten with its sign and at least two digits. -/
def exponentText (exponent : Int) : List Char :=
  let digits := digitsOf exponent.natAbs
  (if exponent < 0 then '-' else '+') :: (if digits.length < 2 then '0' :: digits else digits)

/-- Significant digits laid out as text. -/
def Layout.write (layout : Layout) (value : Significant) : List Char :=
  let digits := match dropTrailingZeros (digitsOf value.digits) with
    | [] => ['0']
    | digits => digits
  let exponent := value.exponent
  if -4 ≤ exponent && exponent < layout.positionalBelow then
    if exponent < 0 then
      ['0', '.'] ++ List.replicate ((-exponent).toNat - 1) '0' ++ digits
    else
      let whole := exponent.toNat + 1
      let fraction := digits.drop whole
      let padded := digits.take whole ++ List.replicate (whole - digits.length) '0'
      if fraction.isEmpty then if layout.pointZero then padded ++ ['.', '0'] else padded
      else padded ++ '.' :: fraction
  else
    match digits with
    | [] => []
    | d :: ds => (if ds.isEmpty then [d] else d :: '.' :: ds) ++ 'e' :: exponentText exponent

/-- A double as text: its sign, then its magnitude by `magnitude`; zero has no significant digit. -/
def signedText (layout : Layout) (magnitude : Nat → Significant) : Binary64 → String
  | .finite negative units =>
    let text := if units = 0 then layout.write ⟨0, 0⟩ else layout.write (magnitude units)
    String.ofList (if negative then '-' :: text else text)
  | .infinite negative => if negative then "-inf" else "inf"
  | .nan => "nan"

/-- The shortest text that reads back: positional below `10^16`, and always with a fraction there. -/
def shortest (value : Binary64) : String :=
  signedText ⟨16, true⟩ (fun units => shortestFrom units 16 1) value

/-- Six significant digits without trailing zeros: positional below `10^6`. -/
def general (value : Binary64) : String :=
  signedText ⟨6, false⟩ (roundSignificant 6) value

end Patchbay.Number
