import Patchbay.Program

/-!
# Programs with shifted numbers

`shift k` adds `k` to the number of every node of a program and leaves the rest as it is: places, ends, flags and
names. `Program.append` puts the statements of one program after those of another.
-/

namespace Patchbay

/-- The mark with its number raised by `k`. -/
def Mark.shift (k : Nat) (m : Mark) : Mark := { m with id := m.id + k }

mutual

/-- The box with all numbers raised by `k`. -/
def Box.shift (k : Nat) : Box → Box
  | .ref mark name => .ref (mark.shift k) name
  | .number mark value text => .number (mark.shift k) value text
  | .string mark value => .string (mark.shift k) value
  | .call mark name args => .call (mark.shift k) name (Box.shiftAll k args)
  | .compose mark op left right => .compose (mark.shift k) op (left.shift k) (right.shift k)
  | .block mark body locals => .block (mark.shift k) (body.shift k) (Definition.shiftAll k locals)

/-- The boxes with all numbers raised by `k`. -/
def Box.shiftAll (k : Nat) : List Box → List Box
  | [] => []
  | b :: bs => b.shift k :: Box.shiftAll k bs

/-- The definition with all numbers raised by `k`. -/
def Definition.shift (k : Nat) : Definition → Definition
  | ⟨mark, name, params, none, stop⟩ => ⟨mark.shift k, name, params, none, stop⟩
  | ⟨mark, name, params, some body, stop⟩ => ⟨mark.shift k, name, params, some (body.shift k), stop⟩

/-- The definitions with all numbers raised by `k`. -/
def Definition.shiftAll (k : Nat) : List Definition → List Definition
  | [] => []
  | d :: ds => d.shift k :: Definition.shiftAll k ds

end

@[simp] theorem Box.mark_shift (k : Nat) (b : Box) : (b.shift k).mark = b.mark.shift k := by
  cases b <;> simp only [Box.shift, Box.mark]

@[simp] theorem Box.invalid_shift (k : Nat) (b : Box) : (b.shift k).invalid = b.invalid := by
  rw [Box.invalid, Box.mark_shift]
  rfl

theorem Box.shiftAll_concat (k : Nat) (bs : List Box) (b : Box) :
    Box.shiftAll k (bs ++ [b]) = Box.shiftAll k bs ++ [b.shift k] := by
  induction bs with
  | nil => simp only [Box.shiftAll, List.nil_append]
  | cons _ bs ih => simp only [Box.shiftAll, List.cons_append, ih]

theorem Definition.shiftAll_eq_map (k : Nat) (ds : List Definition) :
    Definition.shiftAll k ds = ds.map (Definition.shift k) := by
  induction ds with
  | nil => rw [Definition.shiftAll, List.map_nil]
  | cons d ds ih => rw [Definition.shiftAll, List.map_cons, ih]

theorem Definition.shiftAll_concat (k : Nat) (ds : List Definition) (d : Definition) :
    Definition.shiftAll k (ds ++ [d]) = Definition.shiftAll k ds ++ [d.shift k] := by
  simp [Definition.shiftAll_eq_map]

@[simp] theorem Mark.shift_zero (m : Mark) : m.shift 0 = m := rfl

mutual

theorem Box.shift_zero (b : Box) : b.shift 0 = b := by
  cases b with
  | ref | number | string => rw [Box.shift, Mark.shift_zero]
  | call mark name args => rw [Box.shift, Mark.shift_zero, Box.shiftAll_zero args]
  | compose mark op left right => rw [Box.shift, Mark.shift_zero, left.shift_zero, right.shift_zero]
  | block mark body locals =>
    rw [Box.shift, Mark.shift_zero, body.shift_zero, Definition.shiftAll_zero locals]

theorem Box.shiftAll_zero (bs : List Box) : Box.shiftAll 0 bs = bs := by
  cases bs with
  | nil => rw [Box.shiftAll]
  | cons b bs => rw [Box.shiftAll, b.shift_zero, Box.shiftAll_zero bs]

theorem Definition.shift_zero (d : Definition) : d.shift 0 = d := by
  cases d with
  | mk mark name params body stop =>
    cases body with
    | none => rw [Definition.shift, Mark.shift_zero]
    | some body => rw [Definition.shift, Mark.shift_zero, body.shift_zero]

theorem Definition.shiftAll_zero (ds : List Definition) : Definition.shiftAll 0 ds = ds := by
  cases ds with
  | nil => rw [Definition.shiftAll]
  | cons d ds => rw [Definition.shiftAll, d.shift_zero, Definition.shiftAll_zero ds]

end

namespace Program

/-- The program with all numbers raised by `k`. -/
def shift (k : Nat) (p : Program) : Program where
  imports := p.imports.map fun i => { i with mark := i.mark.shift k }
  declarations := p.declarations.map fun d => { d with mark := d.mark.shift k }
  definitions := Definition.shiftAll k p.definitions

/-- The statements of one program, then those of another. -/
def append (p q : Program) : Program where
  imports := p.imports ++ q.imports
  declarations := p.declarations ++ q.declarations
  definitions := p.definitions ++ q.definitions

theorem append_empty (p : Program) : p.append .empty = p := by
  simp [append, empty]

theorem empty_append (p : Program) : empty.append p = p := rfl

theorem shift_empty (k : Nat) : empty.shift k = empty := by
  simp [shift, empty, Definition.shiftAll]

theorem shift_zero (p : Program) : p.shift 0 = p := by
  unfold shift
  rw [Definition.shiftAll_zero]
  simp

end Program

end Patchbay
