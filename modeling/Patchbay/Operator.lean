/-!
# The five composition operators

Two boxes are joined in sequence, in parallel, by splitting, by merging or by feedback.
-/

namespace Patchbay

/-- A composition of two boxes. -/
inductive Operator where
  | seq
  | par
  | split
  | merge
  | recur
deriving DecidableEq, Repr, Inhabited

namespace Operator

/-- How the operator is written. -/
def symbol : Operator → String
  | .seq => ":"
  | .par => ","
  | .split => "<:"
  | .merge => ":>"
  | .recur => "~"

/-- The operator's name. -/
def name : Operator → String
  | .seq => "seq"
  | .par => "par"
  | .split => "split"
  | .merge => "merge"
  | .recur => "recur"

/-- Operators of higher precedence bind tighter. -/
def precedence : Operator → Nat
  | .recur => 4
  | .par => 3
  | .seq => 2
  | .split => 1
  | .merge => 1

/-- The operator with this symbol. -/
def ofSymbol? : String → Option Operator
  | ":" => some .seq
  | "," => some .par
  | "<:" => some .split
  | ":>" => some .merge
  | "~" => some .recur
  | _ => none

@[simp] theorem ofSymbol?_symbol (op : Operator) : ofSymbol? op.symbol = some op := by
  cases op <;> rfl

end Operator

end Patchbay
