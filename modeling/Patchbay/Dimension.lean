import Patchbay.Fault
import Patchbay.Number.Reading
import Patchbay.Operator

/-!
# Dimensions of boxes

A box has a number of inputs and a number of outputs. `Dimension.compose` gives the dimension of a
composition, or nothing when the two boxes do not fit.
-/

namespace Patchbay

/-- Numbers of input and output signals. -/
structure Dimension where
  inputs : Nat
  outputs : Nat
deriving DecidableEq, Repr, Inhabited

namespace Dimension

/-- A single signal: no input, one output. -/
def signal : Dimension := ⟨0, 1⟩

/-- A dimension as a pair. -/
def text (d : Dimension) : String := "(" ++ toString d.inputs ++ ", " ++ toString d.outputs ++ ")"

/-- Whether both counts can be written. -/
def isWritable (d : Dimension) : Bool := Number.isWritable d.inputs && Number.isWritable d.outputs

/-- A dimension as a pair, unless a count has too many digits. -/
def written (d : Dimension) : Except Fault String :=
  if d.isWritable then .ok d.text else .error .tooManyDigits

/-- The dimension of `a op b`. In sequence the signals must match one to one; a split feeds each
output to equally many inputs; a merge adds equally many outputs into each input; in parallel all
signals stand side by side; feedback leads outputs of `a` through `b` back to inputs of `a`. -/
def compose (op : Operator) (a b : Dimension) : Option Dimension :=
  match op with
  | .seq => if a.outputs = b.inputs then some ⟨a.inputs, b.outputs⟩ else none
  | .par => some ⟨a.inputs + b.inputs, a.outputs + b.outputs⟩
  | .split =>
    if (if a.outputs = 0 then b.inputs = 0 else b.inputs % a.outputs = 0)
    then some ⟨a.inputs, b.outputs⟩ else none
  | .merge =>
    if (if b.inputs = 0 then a.outputs = 0 else a.outputs % b.inputs = 0)
    then some ⟨a.inputs, b.outputs⟩ else none
  | .recur =>
    if a.outputs < b.inputs ∨ a.inputs < b.outputs then none
    else some ⟨a.inputs - b.outputs, a.outputs⟩

/-- Numbers of signals added up. -/
def total (count : Dimension → Nat) (dims : List Dimension) : Nat := dims.foldr (fun d n => count d + n) 0

end Dimension

/-- A count with its word, in the plural unless it is one. -/
def plural (count : Nat) (word : String) : String :=
  if count = 1 then toString count ++ " " ++ word else toString count ++ " " ++ word ++ "s"

end Patchbay
