import Patchbay.Datum.Shown

/-!
# Formats of fields

A field of a template may say how its value is to look: a fill character and an alignment, a sign, a width,
marks between groups of digits, a precision and a form. A text is cut and padded; a number is written in a
base, or in positional or scientific notation. What a format asks for must make sense for the value.
-/

namespace Patchbay

/-- How a value is to look. -/
structure Format where
  fill : Char
  align : Option Char
  sign : Option Char
  /-- Whether a negative zero loses its sign. -/
  plainZero : Bool
  /-- Whether the base is shown and the point is kept. -/
  explicit : Bool
  /-- Whether the width is filled with zeros. -/
  zeros : Bool
  width : Nat
  mark : Option Char
  precision : Option Nat
  form : Option Char
deriving DecidableEq, Repr, Inhabited

namespace Format

/-! ## Reading -/

/-- Characters that choose an alignment. -/
def isAlign (c : Char) : Bool := c = '<' || c = '>' || c = '=' || c = '^'

/-- Reads a fill character and an alignment. -/
def readAlign : List Char → Option Char × Option Char × List Char
  | fill :: align :: cs =>
    if isAlign align then (some fill, some align, cs)
    else if isAlign fill then (none, some fill, align :: cs)
    else (none, none, fill :: align :: cs)
  | [align] => if isAlign align then (none, some align, []) else (none, none, [align])
  | [] => (none, none, [])

/-- Takes the first character if it is of a kind. -/
def takeIf (wanted : Char → Bool) : List Char → Option Char × List Char
  | c :: cs => if wanted c then (some c, cs) else (none, c :: cs)
  | [] => (none, [])

/-- The largest number that a format may have in it. -/
def numberLimit : Nat := Nat.pow 2 63 - 1

/-- Reads a number in a format; it has no digits if there is none. -/
def takeNumber (cs : List Char) : List Char × List Char :=
  (cs.takeWhile Text.isDigit, cs.dropWhile Text.isDigit)

/-- The number with these digits, unless it is too large for a format. -/
def number? (digits : List Char) : Option Nat :=
  if Text.decimalValue digits ≤ numberLimit then some (Text.decimalValue digits) else none

/-- Reads a precision: a point and a number. -/
def readPrecision (cs : List Char) : Option (Option Nat × List Char) :=
  match cs with
  | '.' :: cs =>
    match takeNumber cs with
    | ([], _) => none
    | (digits, rest) => (number? digits).map fun n => (some n, rest)
  | cs => some (none, cs)

/-- Reads a format; none if it is malformed. -/
def read? (cs : List Char) : Option Format := do
  let (fill, align, cs) := readAlign cs
  let (sign, cs) := takeIf (fun c => c = '+' || c = '-' || c = ' ') cs
  let (plainZero, cs) := takeIf (· = 'z') cs
  let (explicit, cs) := takeIf (· = '#') cs
  let (zeros, cs) := if fill.isNone then takeIf (· = '0') cs else (none, cs)
  let (digits, cs) := takeNumber cs
  let width ← number? digits
  let (mark, cs) := takeIf (fun c => c = ',' || c = '_') cs
  let (precision, cs) ← if mark.isSome && (cs.head? = some ',' || cs.head? = some '_') then none
    else readPrecision cs
  match cs with
  | [] | [_] =>
    return ⟨fill.getD (if zeros.isSome then '0' else ' '), align, sign, plainZero.isSome, explicit.isSome,
      zeros.isSome, width, mark, precision, cs.head?⟩
  | _ => none

/-! ## Padding -/

/-- A text filled up to the width of a format; `align` says where the text stands. -/
def pad (f : Format) (align : Char) (cs : List Char) : List Char :=
  let free := f.width - cs.length
  let fillUp (count : Nat) := List.replicate count f.fill
  if align = '<' then cs ++ fillUp free
  else if align = '^' then fillUp (free / 2) ++ cs ++ fillUp (free - free / 2)
  else fillUp free ++ cs

/-- No text can be as wide as this. -/
def widthLimit : Nat := Nat.pow 2 47

/-- What a format makes, unless it is wider than texts can be. -/
def within (f : Format) (made : Unit → List Char) : Except Fault (List Char) :=
  if f.width < widthLimit then .ok (made ()) else .error .oversizedText

/-- A text in a format: cut to the precision, and on the left unless told otherwise. -/
def ofText (f : Format) (cs : List Char) : Except Fault (List Char) :=
  if f.sign.isSome || f.plainZero || f.explicit || f.align = some '=' || f.mark.isSome
      || f.form.any (· ≠ 's') then .error .malformedTemplate
  else
    let cut := match f.precision with
      | some count => cs.take count
      | none => cs
    f.within fun _ => f.pad (f.align.getD '<') cut

/-! ## Numbers -/

/-- The parts of a written number. -/
structure Parts where
  negative : Bool
  /-- What announces the base. -/
  base : List Char
  /-- The digits in front of the point. -/
  whole : List Char
  /-- What follows them. -/
  rest : List Char

/-- Digits in groups, last digit first, with zeros up to a width; `mark` stands between groups. -/
def grouped (size : Nat) (mark : Char) : (fuel : Nat) → (least : Int) → (digits : List Char) → List Char
  | 0, _, digits => digits
  | fuel + 1, least, digits =>
    let count := min size (max (max digits.length least.toNat) 1)
    let group := digits.take count ++ List.replicate (count - digits.length) '0'
    let rest := digits.drop count
    let left := least - count
    if rest.isEmpty && left ≤ 0 then group else group ++ mark :: grouped size mark fuel (left - 1) rest

/-- How many digits make a group: four in the bases that are powers of two. -/
def groupSize (f : Format) : Nat :=
  if f.form.any fun c => c = 'b' || c = 'o' || c = 'x' || c = 'X' then 4 else 3

/-- The sign that is shown. -/
def signText (f : Format) (negative : Bool) : List Char :=
  if negative then ['-']
  else
    match f.sign with
    | some '+' => ['+']
    | some ' ' => [' ']
    | _ => []

/-- A number in a format: on the right unless told otherwise, and with zeros behind its sign. -/
def ofParts (f : Format) (p : Parts) : List Char :=
  let align := f.align.getD (if f.zeros then '=' else '>')
  let sign := f.signText p.negative
  let others := sign.length + p.base.length + p.rest.length
  let least : Int := if f.fill = '0' && align = '=' then (f.width : Int) - others else 0
  let whole :=
    if p.whole.isEmpty then []
    else
      match f.mark with
      | some mark =>
        (grouped f.groupSize mark (p.whole.length + least.toNat + 1) least p.whole.reverse).reverse
      | none => List.replicate (least.toNat - p.whole.length) '0' ++ p.whole
  if align = '=' then
    sign ++ p.base ++ List.replicate (f.width - (others + whole.length)) f.fill ++ whole ++ p.rest
  else f.pad align (sign ++ p.base ++ whole ++ p.rest)

/-- Whether the mark between groups goes with the form. -/
def markFits (f : Format) : Bool :=
  match f.mark, f.form with
  | none, _ | _, none => true
  | some mark, some form =>
    "defgEFG%".toList.contains form || (mark = '_' && "boxX".toList.contains form)

/-! ## Doubles -/

/-- A point and digits; without digits the point stands only if it is to be kept. -/
def fractionText (kept : Bool) (digits : List Char) : List Char :=
  if digits.isEmpty && !kept then [] else '.' :: digits

/-- A number with so many digits behind the point: the digits in front, and the rest. -/
def fixed (explicit : Bool) (places units : Nat) : List Char × List Char :=
  let digits := Number.digitsOf (Binary64.roundDiv (units * Nat.pow 10 places) Binary64.one)
  let digits := List.replicate (places + 1 - digits.length) '0' ++ digits
  (digits.take (digits.length - places), fractionText explicit (digits.drop (digits.length - places)))

/-- So many significant digits of a number, with the exponent of the first one. -/
def significant (count units : Nat) : List Char × Int :=
  if units = 0 then (List.replicate count '0', 0)
  else
    let value := Number.roundSignificant count units
    (Number.digitsOf value.digits, value.exponent)

/-- Digits in scientific notation. -/
def scientificText (explicit : Bool) (digits : List Char) (exponent : Int) : List Char × List Char :=
  (digits.take 1, fractionText explicit (digits.drop 1) ++ 'e' :: Number.exponentText exponent)

/-- A number in scientific notation with so many digits behind the point. -/
def scientific (explicit : Bool) (places units : Nat) : List Char × List Char :=
  let (digits, exponent) := significant (places + 1) units
  scientificText explicit digits exponent

/-- So many significant digits, positional where that is short. If the point is always to have a digit
behind it, one place fewer is positional. -/
def generalParts (explicit pointed : Bool) (count units : Nat) : List Char × List Char :=
  let count := max count 1
  let (digits, exponent) := significant count units
  let shortened := if explicit then digits else
    match Number.dropTrailingZeros digits with
    | [] => ['0']
    | digits => digits
  if exponent < -4 || (count : Int) - (if pointed then 1 else 0) ≤ exponent then
    scientificText explicit shortened exponent
  else if exponent < 0 then
    (['0'], '.' :: List.replicate ((-exponent).toNat - 1) '0' ++ shortened)
  else
    let places := exponent.toNat + 1
    let whole := shortened.take places ++ List.replicate (places - shortened.length) '0'
    let fraction := shortened.drop places
    (whole, if fraction.isEmpty && pointed && !explicit then ".0".toList else fractionText explicit fraction)

/-- The shortest text of a number, in front of the point and from it on. -/
def shortestParts (explicit : Bool) (units : Nat) : List Char × List Char :=
  let text := (Number.shortest (.finite false units)).toList
  let rest := text.dropWhile Char.isDigit
  (text.takeWhile Char.isDigit, if explicit && rest.head? = some 'e' then '.' :: rest else rest)

/-- The largest precision of a double. -/
def precisionLimit : Nat := Nat.pow 2 31 - 1

/-- The digits of a double in a form: those in front of the point, and the rest. -/
def magnitude (f : Format) (units : Nat) : List Char × List Char :=
  let places := f.precision.getD 6
  match f.form with
  | some 'e' | some 'E' => scientific f.explicit places units
  | some 'f' | some 'F' | some '%' => fixed f.explicit places units
  | none =>
    match f.precision with
    | some count => generalParts f.explicit true count units
    | none => shortestParts f.explicit units
  | _ => generalParts f.explicit false places units

/-- A double in a format. Percents are hundredths. -/
def ofDouble (f : Format) (value : Binary64) : Except Fault (List Char) :=
  if f.form.any (fun c => !"eEfFgGn%".toList.contains c) || !f.markFits
      || f.precision.any (precisionLimit < ·) then .error .malformedTemplate
  else
    let percent : List Char := if f.form = some '%' then ['%'] else []
    let inCase (cs : List Char) := if f.form.any Char.isUpper then cs.map Char.toUpper else cs
    let scaled := match value with
      | .finite negative units =>
        if f.form = some '%' then Binary64.ofUnits negative (units * 100) 1 else value
      | other => other
    f.within fun _ => f.ofParts (match scaled with
      | .finite negative units =>
        let (whole, rest) := f.magnitude units
        let zero := (whole ++ rest.takeWhile fun c => c ≠ 'e').all fun c => c = '0' || c = '.'
        ⟨negative && !(f.plainZero && zero), [], whole, inCase rest ++ percent⟩
      | .infinite negative => ⟨negative, [], [], inCase "inf".toList ++ percent⟩
      | .nan => ⟨false, [], [], inCase "nan".toList ++ percent⟩)

/-! ## Whole numbers -/

/-- The base of a form, and what announces it. -/
def baseOf : Option Char → Option (Nat × List Char)
  | none | some 'd' | some 'n' => some (10, [])
  | some 'b' => some (2, "0b".toList)
  | some 'o' => some (8, "0o".toList)
  | some 'x' => some (16, "0x".toList)
  | some 'X' => some (16, "0X".toList)
  | _ => none

/-- A whole number as the character with that code. -/
def ofCode (f : Format) (n : Int) : Except Fault (List Char) :=
  if f.sign.isSome || f.explicit || f.mark.isSome then .error .malformedTemplate
  else if 0 ≤ n && n < 0x110000 then
    f.within fun _ => f.ofParts ⟨false, [], [], [Char.ofNat n.toNat]⟩
  else .error .notCharacter

/-- A whole number in a format. -/
def ofWhole (f : Format) (n : Int) : Except Fault (List Char) :=
  if f.form.any fun c => "eEfFgG%".toList.contains c then
    match Binary64.ofNat n.natAbs with
    | .finite _ units => f.ofDouble (.finite (decide (n < 0)) units)
    | _ => .error .oversizedNumber
  else if f.precision.isSome || f.plainZero || !f.markFits then .error .malformedTemplate
  else if f.form = some 'c' then f.ofCode n
  else
    match baseOf f.form with
    | none => .error .malformedTemplate
    | some (base, announced) =>
      if base = 10 && !Number.isWritable n.natAbs then .error .tooManyDigits
      else
        let digits := Nat.toDigits base n.natAbs
        let digits := if f.form = some 'X' then digits.map Char.toUpper else digits
        f.within fun _ => f.ofParts ⟨decide (n < 0), if f.explicit then announced else [], digits, []⟩

end Format

/-- A datum in a format; without one it is shown as it is. Only texts and numbers have formats. -/
def Datum.formatted (datum : Datum) (format : List Char) : Except Fault String :=
  if format.isEmpty then datum.written Datum.shown
  else
    match datum with
    | .text value => made fun f => f.ofText value.toList
    | .int n => made fun f => f.ofWhole n
    | .bool b => made fun f => f.ofWhole (if b then 1 else 0)
    | .float value => made fun f => f.ofDouble value
    | _ => .error .wrongType
where
  /-- What the format makes, unless it is malformed. -/
  made (use : Format → Except Fault (List Char)) : Except Fault String :=
    match Format.read? format with
    | some f => (use f).map String.ofList
    | none => .error .malformedTemplate

end Patchbay
