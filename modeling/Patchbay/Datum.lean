import Patchbay.Number.Binary64

/-!
# Free data

Values without a fixed type: what callers hand in as settings, exports or diagnostics, the data that a
diagnostic carries, and the documents that are printed. A record keeps its fields in order.
-/

namespace Patchbay

/-- A value of free data. -/
inductive Datum where
  | null
  | bool (value : Bool)
  | int (value : Int)
  | float (value : Binary64)
  | text (value : String)
  | list (items : List Datum)
  | record (fields : List (String × Datum))
deriving Repr, Inhabited

namespace Datum

/-- The value of a field of a record. -/
def field? (name : String) (fields : List (String × Datum)) : Option Datum :=
  (fields.find? fun f => f.1 == name).map (·.2)

/-- The field of a datum, if it is a record that has one. -/
def get? (datum : Datum) (name : String) : Option Datum :=
  match datum with
  | .record fields => field? name fields
  | _ => none

/-- The field of a datum; null counts as absent. -/
def getSome? (datum : Datum) (name : String) : Option Datum :=
  match datum.get? name with
  | some .null => none
  | other => other

/-- The text of a datum that is one. -/
def text? : Datum → Option String
  | .text value => some value
  | _ => none

/-- The whole number of a datum that is one. -/
def int? : Datum → Option Int
  | .int value => some value
  | _ => none

/-- The truth value of a datum that is one. -/
def bool? : Datum → Option Bool
  | .bool value => some value
  | _ => none

/-- The items of a datum that is a list. -/
def list? : Datum → Option (List Datum)
  | .list items => some items
  | _ => none

/-- The fields of a datum that is a record. -/
def record? : Datum → Option (List (String × Datum))
  | .record fields => some fields
  | _ => none

/-- Null for an absent value. -/
def ofOption {α : Type} (f : α → Datum) : Option α → Datum
  | none => .null
  | some a => f a

end Datum

/-! ## Depth -/

mutual

/-- How deeply a datum is nested; a simple value has depth one. -/
def Datum.depth : Datum → Nat
  | .list items => 1 + Datum.itemsDepth items
  | .record fields => 1 + Datum.fieldsDepth fields
  | _ => 1

/-- The greatest depth of data. -/
def Datum.itemsDepth : List Datum → Nat
  | [] => 0
  | d :: ds => max d.depth (Datum.itemsDepth ds)

/-- The greatest depth of fields. -/
def Datum.fieldsDepth : List (String × Datum) → Nat
  | [] => 0
  | (_, d) :: fields => max d.depth (Datum.fieldsDepth fields)

end

end Patchbay
