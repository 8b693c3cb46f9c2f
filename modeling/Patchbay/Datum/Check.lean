import Patchbay.Datum
import Patchbay.Fault
import Patchbay.Number.Entered
import Patchbay.Table

/-!
# Checking free data

A check turns a datum into a value of a type or objects to parts of it. Checks of several parts collect
all objections, in the order of the parts. Numbers are taken generously: whole floats and numerals in
text count as whole numbers, and truth values have common spellings.
-/

namespace Patchbay

/-- A value, or the objections to the datum it was to come from. -/
abbrev Checked (α : Type) := Except (List Objection) α

namespace Checked

variable {α β γ : Type}

/-- Objects to a datum as a whole. -/
def refuse (complaint : Complaint) : Checked α := .error [⟨[], complaint⟩]

/-- A check of a part: objections get the step that leads to it. -/
def under (step : Step) (checked : Checked α) : Checked α :=
  match checked with
  | .ok value => .ok value
  | .error objections => .error (objections.map fun o => ⟨step :: o.path, o.complaint⟩)

/-- Two checks, with the objections of both. -/
def zip (a : Checked α) (b : Checked β) : Checked (α × β) :=
  match a, b with
  | .ok x, .ok y => .ok (x, y)
  | .ok _, .error e => .error e
  | .error e, .ok _ => .error e
  | .error e, .error e' => .error (e ++ e')

/-- Checks in order, with the objections of all. -/
def all : List (Checked α) → Checked (List α)
  | [] => .ok []
  | c :: cs => (zip c (all cs)).map fun (x, xs) => x :: xs

/-- A check as a computation that may fail. -/
def orFault (checked : Checked α) : Except Fault α := checked.mapError .invalid

end Checked

namespace Datum

open Checked

/-! ## Simple values -/

/-- A whole number from a float. -/
def wholeFloat (value : Binary64) : Checked Int :=
  match value with
  | .finite _ _ =>
    match value.toInt? with
    | none => refuse .intFromFloat
    | some n => if n.natAbs < Nat.pow 2 63 then .ok n else refuse .intParsingSize
  | _ => refuse .finiteNumber

/-- A whole number. -/
def checkInt : Datum → Checked Int
  | .int n => .ok n
  | .bool b => .ok (if b then 1 else 0)
  | .float value => wholeFloat value
  | .text written =>
    match Number.enteredDigits? written with
    | some (negative, digits) =>
      if digits.length ≤ Number.digitLimit then .ok (Number.ofDigits negative digits)
      else refuse .intParsingSize
    | none => refuse .intParsing
  | _ => refuse .intType

/-- A whole number that is at least `least`. -/
def checkIntFrom (least : Int) (datum : Datum) : Checked Int :=
  match checkInt datum with
  | .ok n => if least ≤ n then .ok n else refuse .greaterThanEqual
  | refused => refused

/-- A natural number. -/
def checkNat (datum : Datum) : Checked Nat := (checkIntFrom 0 datum).map Int.toNat

/-- A float. -/
def checkFloat : Datum → Checked Binary64
  | .float value => .ok value
  | .int n =>
    let magnitude := Binary64.ofNat n.natAbs
    .ok (if n < 0 then -magnitude else magnitude)
  | .bool b => .ok (Binary64.ofNat (if b then 1 else 0))
  | .text written =>
    match Number.enteredDouble? written with
    | some value => .ok value
    | none => refuse .floatParsing
  | _ => refuse .floatType

/-- Spellings of a truth value, in lower case. -/
def truth? (text : String) : Option Bool :=
  let lower := text.map Char.toLower
  if ["1", "on", "t", "true", "y", "yes"].contains lower then some true
  else if ["0", "off", "f", "false", "n", "no"].contains lower then some false
  else none

/-- A truth value. A number that fits no word of 64 bits is none at all. -/
def checkBool : Datum → Checked Bool
  | .bool b => .ok b
  | .int n =>
    if n = 0 then .ok false
    else if n = 1 then .ok true
    else if -(Int.pow 2 63) ≤ n && n < Int.pow 2 63 then refuse .boolParsing
    else refuse .boolType
  | .float value =>
    match wholeFloat value with
    | .ok n => if n = 0 then .ok false else if n = 1 then .ok true else refuse .boolParsing
    | .error _ => refuse .boolType
  | .text written =>
    match truth? written with
    | some b => .ok b
    | none => refuse .boolParsing
  | _ => refuse .boolType

/-- A text. -/
def checkText : Datum → Checked String
  | .text value => .ok value
  | _ => refuse .stringType

/-- One of the named values. -/
def checkNamed {α : Type} (values : List α) (name : α → String) : Datum → Checked α
  | .text written =>
    match values.find? fun v => name v == written with
    | some value => .ok value
    | none => refuse .enum
  | _ => refuse .enum

/-- A value, or null for none. -/
def checkOption {α : Type} (check : Datum → Checked α) : Datum → Checked (Option α)
  | .null => .ok none
  | datum => (check datum).map some

/-! ## Collections -/

/-- The fields of a record that stands for a structured value. -/
def checkRecord : Datum → Checked (List (String × Datum))
  | .record fields => .ok fields
  | _ => refuse .modelType

/-- A field that must be there. -/
def required {α : Type} (name : String) (check : Datum → Checked α) (fields : List (String × Datum)) :
    Checked α :=
  match field? name fields with
  | some datum => under (.key name) (check datum)
  | none => under (.key name) (refuse .missing)

/-- A field that has a value when it is absent. -/
def defaulted {α : Type} (name : String) (value : α) (check : Datum → Checked α)
    (fields : List (String × Datum)) : Checked α :=
  match field? name fields with
  | some datum => under (.key name) (check datum)
  | none => .ok value

/-- A mapping whose values are checked in order. -/
def checkTable {α : Type} (check : Datum → Checked α) : Datum → Checked (Table String α)
  | .record fields =>
    (Checked.all (fields.map fun f => (under (.key f.1) (check f.2)).map fun v => (f.1, v))).map Table.ofList
  | _ => refuse .dictType

/-- A list whose items are checked in order. -/
def checkList {α : Type} (check : Datum → Checked α) : Datum → Checked (List α)
  | .list items => Checked.all (items.zipIdx.map fun (item, place) => under (.index place) (check item))
  | _ => refuse .listType

end Datum

end Patchbay
