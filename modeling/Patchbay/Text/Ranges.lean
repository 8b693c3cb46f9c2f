/-!
# Classes of characters given by ranges

A class of characters is a list of ranges of code points, both ends included. Large classes are written as runs: how
many code points are left out and how many are in, in turn.
-/

namespace Patchbay.Text

/-- The ranges of runs that begin at a code point. -/
def ofRuns (start : Nat) : List Nat → List (Nat × Nat)
  | out :: count :: rest => (start + out, start + out + count - 1) :: ofRuns (start + out + count) rest
  | _ => []

/-- Whether the code point of `c` lies in one of the ranges. -/
def inRanges (ranges : List (Nat × Nat)) (c : Char) : Bool :=
  ranges.any fun r => decide (r.1 ≤ c.toNat) && decide (c.toNat ≤ r.2)

/-- Membership in a class, spelled out. -/
theorem inRanges_iff (ranges : List (Nat × Nat)) (c : Char) :
    inRanges ranges c = true ↔ ∃ r ∈ ranges, r.1 ≤ c.toNat ∧ c.toNat ≤ r.2 := by
  simp [inRanges]

end Patchbay.Text
