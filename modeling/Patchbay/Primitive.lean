import Patchbay.Datum.Check
import Patchbay.Dimension

/-!
# Built-in boxes

Every built-in box has a category and, apart from user-interface boxes, a dimension. A user-interface
box has one only when it is called, with a fixed number of arguments.
-/

namespace Patchbay

/-- What a built-in box is for. -/
inductive Category where
  | wire
  | arithmetic
  | comparison
  | math
  | delay
  | select
  | table
  | ui
  | group
  | cast
deriving DecidableEq, Repr, Inhabited

namespace Category

/-- The name of a category. -/
def name : Category → String
  | .wire => "wire"
  | .arithmetic => "arithmetic"
  | .comparison => "comparison"
  | .math => "math"
  | .delay => "delay"
  | .select => "select"
  | .table => "table"
  | .ui => "ui"
  | .group => "group"
  | .cast => "cast"

/-- All categories. -/
def all : List Category :=
  [.wire, .arithmetic, .comparison, .math, .delay, .select, .table, .ui, .group, .cast]

end Category

/-- A built-in box. -/
structure Primitive where
  name : String
  category : Category
  arity : Option Dimension
  /-- Whether the box delays its input. -/
  delay : Bool
  /-- How many arguments a user-interface box takes. -/
  uiArgs : Option Int
deriving DecidableEq, Repr, Inhabited

/-- Built-in boxes by name, in the order of their registration. -/
abbrev Primitives := Table String Primitive

namespace Primitive

/-- A box of the given dimension. -/
def ofArity (category : Category) (inputs outputs : Nat) (name : String) : Primitive :=
  ⟨name, category, some ⟨inputs, outputs⟩, false, none⟩

/-- A box that delays. -/
def ofDelay (inputs outputs : Nat) (name : String) : Primitive :=
  ⟨name, .delay, some ⟨inputs, outputs⟩, true, none⟩

/-- A user-interface box that takes so many arguments. -/
def ofArguments (category : Category) (count : Int) (name : String) : Primitive :=
  ⟨name, category, none, false, some count⟩

/-- Whether the box belongs to the user interface. -/
def isUi (p : Primitive) : Bool := p.category = .ui || p.category = .group

end Primitive

/-- Controls that produce a signal. -/
def inputControls : List String := ["button", "checkbox", "hslider", "vslider", "nentry"]

/-- Controls with a range, a default and a step. -/
def sliders : List String := ["hslider", "vslider", "nentry"]

/-- Displays of a signal. -/
def bargraphs : List String := ["hbargraph", "vbargraph"]

/-- Groups of controls. -/
def groups : List String := ["hgroup", "vgroup", "tgroup"]

/-- Forms that repeat a box. -/
def iterations : List String := ["par", "seq", "sum", "prod"]

/-- The built-in boxes of the language, in order. -/
def standardPrimitiveList : List Primitive :=
  [Primitive.ofArity .wire 1 1 "_", Primitive.ofArity .wire 1 0 "!", Primitive.ofDelay 1 1 "mem",
   Primitive.ofDelay 2 1 "@", Primitive.ofDelay 2 1 "prefix", Primitive.ofArity .select 3 1 "select2",
   Primitive.ofArity .select 4 1 "select3", Primitive.ofArity .table 3 1 "rdtable",
   Primitive.ofArity .table 5 1 "rwtable", Primitive.ofArity .wire 2 1 "attach",
   Primitive.ofArity .cast 1 1 "int", Primitive.ofArity .cast 1 1 "float"]
  ++ ["+", "-", "*", "/", "%", "^"].map (Primitive.ofArity .arithmetic 2 1)
  ++ ["<", ">", "<=", ">=", "==", "!=", "&", "|", "xor", "<<", ">>"].map
      (Primitive.ofArity .comparison 2 1)
  ++ ["sin", "cos", "tan", "asin", "acos", "atan", "exp", "log", "log10", "sqrt", "abs", "floor", "ceil",
      "rint"].map (Primitive.ofArity .math 1 1)
  ++ ["pow", "min", "max", "fmod", "remainder", "atan2"].map (Primitive.ofArity .math 2 1)
  ++ ["button", "checkbox"].map (Primitive.ofArguments .ui 1)
  ++ sliders.map (Primitive.ofArguments .ui 5)
  ++ bargraphs.map (Primitive.ofArguments .ui 3)
  ++ groups.map (Primitive.ofArguments .group 2)

/-- The built-in boxes of the language, by name. -/
def standardPrimitives : Primitives := ⟨standardPrimitiveList.map fun p => (p.name, p), by decide +kernel⟩

/-- A dimension from a record of two counts. -/
def Dimension.check (datum : Datum) : Checked Dimension := do
  let fields ← datum.checkRecord
  let (inputs, outputs) ←
    Checked.zip (Datum.required "inputs" Datum.checkNat fields)
      (Datum.required "outputs" Datum.checkNat fields)
  return ⟨inputs, outputs⟩

/-- A built-in box from a record. -/
def Primitive.check (datum : Datum) : Checked Primitive := do
  let fields ← datum.checkRecord
  let (name, category, arity, delay, uiArgs) ←
    Checked.zip (Datum.required "name" Datum.checkText fields)
      (Checked.zip (Datum.required "category" (Datum.checkNamed Category.all Category.name) fields)
        (Checked.zip (Datum.defaulted "arity" none (Datum.checkOption Dimension.check) fields)
          (Checked.zip (Datum.defaulted "delay" false Datum.checkBool fields)
            (Datum.defaulted "ui_args" none (Datum.checkOption Datum.checkInt) fields))))
  return ⟨name, category, arity, delay, uiArgs⟩

end Patchbay
