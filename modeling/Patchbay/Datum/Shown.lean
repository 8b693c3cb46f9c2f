import Patchbay.Datum
import Patchbay.Fault
import Patchbay.Number.Reading
import Patchbay.Number.Writing
import Patchbay.Text.Quoted

/-!
# Free data as text

A text is shown as it is, and between quotes when it stands inside something else. Whole numbers are shown
with all their digits, unless they have too many.
-/

namespace Patchbay

namespace Datum

mutual

/-- A datum as it is shown inside a list or a record. -/
def shownInside : Datum → String
  | .null => "None"
  | .bool value => if value then "True" else "False"
  | .int value => toString value
  | .float value => Number.shortest value
  | .text value => String.ofList (Text.quoted value.toList)
  | .list items => "[" ++ ", ".intercalate (itemsShown items) ++ "]"
  | .record fields => "\x7b" ++ ", ".intercalate (fieldsShown fields) ++ "\x7d"

/-- Data as they are shown inside a list. -/
def itemsShown : List Datum → List String
  | [] => []
  | d :: ds => d.shownInside :: itemsShown ds

/-- Fields as they are shown inside a record. -/
def fieldsShown : List (String × Datum) → List String
  | [] => []
  | (name, d) :: fields =>
    (String.ofList (Text.quoted name.toList) ++ ": " ++ d.shownInside) :: fieldsShown fields

end

/-- A datum as it is shown by itself: a text as it is. -/
def shown : Datum → String
  | .text value => value
  | other => other.shownInside

mutual

/-- Whether all whole numbers in a datum can be written. -/
def isWritable : Datum → Bool
  | .int value => Number.isWritable value.natAbs
  | .list items => itemsWritable items
  | .record fields => fieldsWritable fields
  | _ => true

/-- Whether all whole numbers in data can be written. -/
def itemsWritable : List Datum → Bool
  | [] => true
  | d :: ds => d.isWritable && itemsWritable ds

/-- Whether all whole numbers in fields can be written. -/
def fieldsWritable : List (String × Datum) → Bool
  | [] => true
  | (_, d) :: fields => d.isWritable && fieldsWritable fields

end

/-- A datum as text, by a way of showing it, unless a number in it has too many digits. -/
def written (view : Datum → String) (datum : Datum) : Except Fault String :=
  if datum.isWritable then .ok (view datum) else .error .tooManyDigits

/-- A datum as it is shown inside another one, in ASCII alone. -/
def shownPlainly (datum : Datum) : String :=
  String.ofList (datum.shownInside.toList.flatMap fun c => if c.toNat < 0x80 then [c] else Text.escapedCode c)

end Datum

end Patchbay
