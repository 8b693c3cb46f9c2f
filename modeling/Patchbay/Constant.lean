import Patchbay.Scope.Resolution

/-!
# Constants

A number is a constant, and so is a name that stands for a definition without parameters whose body is a
constant. Names that lead back to themselves are none.
-/

namespace Patchbay

namespace Resolution

/-- What a name stands for as a constant: the body of a valid definition without parameters. -/
def alias? (r : Resolution) (id : Nat) : Option Box :=
  match r.symbol? id with
  | none => none
  | some symbol =>
    match symbol.definition with
    | none => none
    | some d => if d.params.isEmpty then d.validBody? else none

/-- Follows names to a number; `seen` holds the numbers of the nodes already visited. The search has no outcome only
if it runs out of fuel. Otherwise the outcome is a value, or that there is none. -/
def constantFrom (r : Resolution) : (fuel : Nat) → (seen : List Nat) → Box → Option (Option Binary64)
  | 0, _, _ => none
  | fuel + 1, seen, b =>
    if seen.contains b.id then some none
    else
      match b with
      | .number _ value _ => some (some value)
      | .ref mark _ =>
        match r.alias? mark.id with
        | some body => r.constantFrom fuel (mark.id :: seen) body
        | none => some none
      | _ => some none

/-- The value of a constant. Only bound names lead on, and none is visited twice. -/
def constant? (r : Resolution) (b : Box) : Option Binary64 :=
  (r.constantFrom (r.bindings.size + 1) [] b).join

end Resolution

end Patchbay
