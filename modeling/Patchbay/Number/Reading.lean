import Patchbay.Number.Binary64
import Patchbay.Text.Blank
import Patchbay.Text.Digit

/-!
# Reading numbers

The numeral of a program is hexadecimal (`0x1F`) or decimal with optional fraction and exponent.
Numbers that come from elsewhere may also have a sign, blanks around them, single underscores between
digits, and may name an infinity or not-a-number.
-/

namespace Patchbay.Number

open Patchbay.Text

/-- The parts of a decimal numeral: whole digits, fraction digits, exponent. -/
structure Numeral where
  whole : List Char
  fraction : List Char
  exponent : Int
deriving DecidableEq, Repr

/-- The double a numeral stands for. -/
def Numeral.value (n : Numeral) (negative : Bool) : Binary64 :=
  Binary64.ofDecimal negative (decimalValue (n.whole ++ n.fraction)) (n.exponent - n.fraction.length)

/-- The exponent written by `cs`, which starts after the exponent letter; none without digits. -/
def readExponent (cs : List Char) : Option (Int × List Char) :=
  let (negative, cs) :=
    match cs with
    | '-' :: cs => (true, cs)
    | '+' :: cs => (false, cs)
    | cs => (false, cs)
  match cs.takeWhile isDigit with
  | [] => none
  | digits =>
    let value : Int := decimalValue digits
    some (if negative then -value else value, cs.dropWhile isDigit)

/-- Reads a decimal numeral from the start of `cs`; the exponent is read only if it is complete. -/
def readNumeral (cs : List Char) : Option (Numeral × List Char) :=
  let whole := cs.takeWhile isDigit
  let afterWhole := cs.dropWhile isDigit
  let (fraction, rest, pointed) :=
    match afterWhole with
    | '.' :: cs => (cs.takeWhile isDigit, cs.dropWhile isDigit, true)
    | cs => ([], cs, false)
  -- A point needs a digit on one of its sides.
  if whole.isEmpty && (!pointed || fraction.isEmpty) then none
  else
    match rest with
    | 'e' :: cs | 'E' :: cs =>
      match readExponent cs with
      | some (exponent, rest') => some (⟨whole, fraction, exponent⟩, rest')
      | none => some (⟨whole, fraction, 0⟩, rest)
    | _ => some (⟨whole, fraction, 0⟩, rest)

/-- Underscores removed, provided each stands between two digits. -/
def dropUnderscores : (previous : Char) → List Char → Option (List Char)
  | previous, '_' :: c :: cs =>
    if isDigit previous && isDigit c then (dropUnderscores c cs).map (c :: ·) else none
  | _, ['_'] => none
  | _, c :: cs => (dropUnderscores c cs).map (c :: ·)
  | _, [] => some []

/-- The sign in front of a number, and what follows it. -/
def readSign : List Char → Bool × List Char
  | '-' :: cs => (true, cs)
  | '+' :: cs => (false, cs)
  | cs => (false, cs)

/-- A signed number, an infinity or not-a-number as a double. -/
def doubleOf? (cs : List Char) : Option Binary64 :=
  let (negative, cs) := readSign cs
  let lower := cs.map Char.toLower
  if lower == "inf".toList || lower == "infinity".toList then some (.infinite negative)
  else if lower == "nan".toList then some .nan
  else
    match readNumeral cs with
    | some (numeral, []) => some (numeral.value negative)
    | _ => none

/-- Reads a whole text as a double. -/
def readDouble? (text : String) : Option Binary64 :=
  (dropUnderscores ' ' (trim text.toList)).bind doubleOf?

/-- How many digits a whole number may have, to be read or written. -/
def digitLimit : Nat := 4300

/-- The least number that has too many digits to be written. -/
def unwritable : Nat := Nat.pow 10 digitLimit

/-- Whether a number can be written. -/
def isWritable (n : Nat) : Bool := n < unwritable

/-- The double that the numeral of a program stands for; none for a hexadecimal number too large to
be one. A decimal number that is too large is infinite. -/
def ofNumeral? (text : List Char) : Option Binary64 :=
  match text with
  | '0' :: 'x' :: digits | '0' :: 'X' :: digits =>
    match Binary64.ofNat (hexValue digits) with
    | .finite negative units => some (.finite negative units)
    | _ => none
  | _ =>
    match readNumeral text with
    | some (numeral, _) => some (numeral.value false)
    | none => some (.finite false 0)

end Patchbay.Number
