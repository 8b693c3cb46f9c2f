import Patchbay.Number.Reading

/-!
# Numbers as callers enter them

Numbers in settings and in arguments are read from text more narrowly than those of files: only the ten
common digits count, and a whole number may have a fraction of zeros. Underscores may stand between
characters, one at a time.
-/

namespace Patchbay.Number

open Patchbay.Text

/-- Whether each underscore stands alone and between other characters. -/
def underscoresApart : List Char → Bool
  | [] => true
  | ['_'] => false
  | '_' :: '_' :: _ => false
  | _ :: cs => underscoresApart cs

/-- A text without its underscores, provided they stand apart and none comes first. -/
def joined? (cs : List Char) : Option (List Char) :=
  if cs.head? ≠ some '_' && underscoresApart cs then some (cs.filter (· ≠ '_')) else none

/-- Whether a character is one of the ten common digits. -/
def isCommonDigit (c : Char) : Bool := '0' ≤ c && c ≤ '9'

/-- The digits of a whole number from its first one that is not zero; zero has one digit. Underscores
after leading zeros count for nothing. -/
def significantDigits? (cs : List Char) : Option (List Char) :=
  let rest := if cs.head? = some '0' then cs.dropWhile fun c => c = '0' || c = '_' else cs
  match rest with
  | [] => if cs.getLast? = some '0' then some ['0'] else none
  | c :: rest =>
    if isCommonDigit c then (joined? (c :: rest)).filter fun digits => digits.all isCommonDigit else none

/-- Whether a text is that of a fraction of zeros. -/
def isZeroFraction (cs : List Char) : Bool :=
  match cs with
  | '.' :: '0' :: zeros => zeros.all (· == '0')
  | _ => false

/-- The sign and the digits of an entered whole number. -/
def enteredDigits? (text : String) : Option (Bool × List Char) :=
  let (negative, cs) := readSign (trimWhere isSpace text.toList)
  let fraction := cs.dropWhile (· ≠ '.')
  if fraction.isEmpty || isZeroFraction fraction then
    (significantDigits? (cs.takeWhile (· ≠ '.'))).map fun digits => (negative, digits)
  else none

/-- The whole number with a sign and digits. -/
def ofDigits (negative : Bool) (digits : List Char) : Int :=
  if negative then -(decimalValue digits : Int) else decimalValue digits

/-- An entered whole number of no more digits than can be read. -/
def enteredWhole? (text : String) : Option Int :=
  match enteredDigits? text with
  | some (negative, digits) => if digits.length ≤ digitLimit then some (ofDigits negative digits) else none
  | none => none

/-- A double in common digits. -/
def commonDouble? (cs : List Char) : Option Binary64 :=
  if cs.all fun c => c.toNat < 0x80 then doubleOf? cs else none

/-- An entered double. One with underscores has no blanks around it. -/
def enteredDouble? (text : String) : Option Binary64 :=
  match commonDouble? (trimWhere isSpace text.toList) with
  | some value => some value
  | none => (joined? text.toList).bind commonDouble?

end Patchbay.Number
