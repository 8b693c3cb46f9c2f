import Patchbay.Proofs.Analysis.Order

/-!
# Paths in use

Controls are checked in the order of the text, and a table keeps the place of the first holder of each path. If no two
controls stand at one place, a control is reported exactly if the first holder of its path is another one.
-/

open List

namespace Patchbay

/-- The first control with a path. -/
def holder? (cs : List Control) (path : String) : Option Control := cs.find? fun c => c.path == path

/-- What is reported at a control, where `first` is the first holder of its path. -/
def Control.clash? (c : Control) (first : Option Control) : Option Finding :=
  (first.filter fun first => first.position ≠ c.position).map fun first =>
    ⟨c.position, .pathInUse c.path first.position⟩

/-- The table keeps the first holder of each path. So what is reported at a control is decided by the first holder among
all controls, those behind it included. -/
theorem clashesFrom_eq (checked : List Control) {cs : List Control} {seen : Table String Position}
    (hseen : ∀ path, seen.get? path = (holder? checked path).map (·.position))
    (hplaces : ((checked ++ cs).map (·.position)).Nodup) :
    clashesFrom seen cs = cs.filterMap fun c => c.clash? (holder? (checked ++ cs) c.path) := by
  induction cs generalizing checked seen with
  | nil => rfl
  | cons c rest ih =>
    have hsplit : checked ++ c :: rest = checked ++ [c] ++ rest := by simp
    -- Behind `c` the first holder of a path is an old one, or it is `c`.
    have hnext (path : String) :
        holder? (checked ++ [c]) path = (holder? checked path).or (if c.path = path then some c else none) := by
      unfold holder?
      rw [find?_append, find?_singleton]
      simp
    have hfirst : holder? (checked ++ c :: rest) c.path = (holder? checked c.path).or (some c) := by
      unfold holder?
      rw [find?_append, find?_cons_of_pos (by simp)]
    rw [clashesFrom, filterMap_cons, hfirst, hseen]
    cases hholder : holder? checked c.path with
    | some first =>
      have hplace : first.position ≠ c.position := by
        rw [map_append, List.nodup_append] at hplaces
        have hmem : first ∈ checked := mem_of_find?_eq_some hholder
        exact hplaces.2.2 _ (mem_map_of_mem hmem) _ (by simp)
      have hclash : c.clash? (some first) = some ⟨c.position, .pathInUse c.path first.position⟩ := by
        simp [Control.clash?, hplace]
      have hsame (path : String) : seen.get? path = (holder? (checked ++ [c]) path).map (·.position) := by
        rw [hseen, hnext]
        split
        · rename_i hpath
          rw [← hpath, hholder]
          rfl
        · simp
      rw [Option.some_or, hclash, hsplit, ← ih _ hsame (hsplit ▸ hplaces)]
      rfl
    | none =>
      have hclash : c.clash? (some c) = none := by simp [Control.clash?]
      have hnew (path : String) :
          (seen.insert c.path c.position).get? path = (holder? (checked ++ [c]) path).map (·.position) := by
        rw [hnext, Table.get?_insert, hseen]
        by_cases hpath : path = c.path
        · rw [if_pos hpath, if_pos hpath.symm, hpath, hholder]
          rfl
        · rw [if_neg hpath, if_neg (Ne.symm hpath), Option.or_none]
      rw [Option.none_or, hclash, hsplit, ← ih _ hnew (hsplit ▸ hplaces)]
      rfl

section

variable {cs : List Control}

/-- The controls in the order of the text. -/
abbrev inTextOrder (cs : List Control) : List Control := cs.mergeSort Control.notAfter

theorem sorted_inTextOrder (cs : List Control) :
    (inTextOrder cs).Pairwise fun c e => c.position.before e.position :=
  pairwise_mergeSort Control.notAfter_trans Control.notAfter_total cs

theorem nodup_places_inTextOrder (h : (cs.map (·.position)).Nodup) : ((inTextOrder cs).map (·.position)).Nodup :=
  (((mergeSort_perm cs Control.notAfter).map _).nodup_iff).mpr h

theorem pathFindings_eq (h : (cs.map (·.position)).Nodup) :
    pathFindings cs = (inTextOrder cs).filterMap fun c => c.clash? (holder? (inTextOrder cs) c.path) :=
  clashesFrom_eq [] (fun _ => rfl) (nodup_places_inTextOrder h)

/-- In the order of the text the first holder of a path is the one at the earliest place. -/
theorem spec_of_holder? {path : String} {first : Control} (hfirst : holder? (inTextOrder cs) path = some first) :
    first ∈ cs ∧ first.path = path ∧ ∀ e ∈ cs, e.path = path → first.position.before e.position := by
  rcases find?_eq_some_iff_append.mp hfirst with ⟨hpath, front, back, hsplit, hfront⟩
  have hsorted := sorted_inTextOrder cs
  have hmem (e : Control) : e ∈ front ++ first :: back ↔ e ∈ cs := hsplit ▸ mem_mergeSort
  rw [hsplit, pairwise_append, pairwise_cons] at hsorted
  refine ⟨(hmem first).mp (by simp), by simpa using hpath, ?_⟩
  intro e he hsame
  rcases mem_append.mp ((hmem e).mpr he) with hbefore | hbehind
  · exact absurd hsame (by simpa using hfront e hbefore)
  · rcases mem_cons.mp hbehind with rfl | hbehind
    · simpa using Position.before_total e.position e.position
    · exact hsorted.2.1.1 e hbehind

/-- The path of a control has a first holder. -/
theorem exists_holder {c : Control} (hc : c ∈ cs) : ∃ first, holder? (inTextOrder cs) c.path = some first := by
  cases hholder : holder? (inTextOrder cs) c.path with
  | none => simpa using find?_eq_none.mp hholder c (mem_mergeSort.mpr hc)
  | some first => exact ⟨first, rfl⟩

section

variable (h : (cs.map (·.position)).Nodup)

include h

theorem mem_pathFindings_iff {f : Finding} :
    f ∈ pathFindings cs ↔ ∃ c ∈ cs, ∃ first, holder? (inTextOrder cs) c.path = some first
      ∧ first.position ≠ c.position ∧ ⟨c.position, .pathInUse c.path first.position⟩ = f := by
  rw [pathFindings_eq h]
  simp only [mem_filterMap, mem_mergeSort, Control.clash?, Option.map_eq_some_iff, Option.filter_eq_some_iff,
    decide_eq_true_eq, and_assoc]

theorem sorted_pathFindings :
    (pathFindings cs).Pairwise fun f g => f.position.before g.position ∧ f.position ≠ g.position := by
  rw [pathFindings_eq h, pairwise_filterMap]
  apply ((sorted_inTextOrder cs).and (pairwise_map.mp (nodup_places_inTextOrder h))).imp
  rintro c e ⟨hbefore, hne⟩ f hf g hg
  simp only [Control.clash?, Option.map_eq_some_iff] at hf hg
  rcases hf with ⟨-, -, rfl⟩
  rcases hg with ⟨-, -, rfl⟩
  exact ⟨hbefore, hne⟩

/-- Nothing is reported if each control is the first holder of its path. -/
theorem pathFindings_eq_nil_iff : pathFindings cs = [] ↔ (cs.map (·.path)).Nodup := by
  rw [nodup_map_iff_inj_on (h.of_map _), eq_nil_iff_forall_not_mem]
  constructor
  · intro hnone c hc e he hpath
    have hown {c first : Control} (hc : c ∈ cs) (hfirst : holder? (inTextOrder cs) c.path = some first) :
        first = c := by
      by_contra hne
      have hplace : first.position ≠ c.position := fun heq =>
        hne (inj_on_of_nodup_map h (spec_of_holder? hfirst).1 hc heq)
      exact hnone _ ((mem_pathFindings_iff h).mpr ⟨c, hc, first, hfirst, hplace, rfl⟩)
    rcases exists_holder hc with ⟨first, hfirst⟩
    rw [← hown hc hfirst]
    exact hown he (hpath ▸ hfirst)
  · intro hinj f hf
    rcases (mem_pathFindings_iff h).mp hf with ⟨c, hc, first, hfirst, hplace, -⟩
    rcases spec_of_holder? hfirst with ⟨hmem, hpath, -⟩
    exact hplace (congrArg _ (hinj first hmem c hc hpath))

theorem inTextOrder_eq_of_perm {cs' : List Control} (hperm : cs'.Perm cs) : inTextOrder cs' = inTextOrder cs := by
  apply Perm.eq_of_pairwise _ (sorted_inTextOrder cs') (sorted_inTextOrder cs)
  · exact (mergeSort_perm cs' _).trans (hperm.trans (mergeSort_perm cs _).symm)
  · intro c e hc he hce hec
    have hplace := Position.before_antisymm hce hec
    exact inj_on_of_nodup_map h (hperm.mem_iff.mp (mem_mergeSort.mp hc)) (mem_mergeSort.mp he) hplace

end

/-- Paths that are in use are reported exactly. No two of the controls stand at one place; their order does not matter.
There is one report for each control whose path another one at an earlier place has, at this control and with the
earliest one related. The reports come in the order of the text. There are none exactly if all paths are different. -/
theorem pathFindings_exact (cs : List Control) (h : (cs.map (·.position)).Nodup) :
    (∀ f, f ∈ pathFindings cs ↔ ∃ c ∈ cs, ∃ first ∈ cs, first.path = c.path
      ∧ first.position.before c.position = true ∧ first.position ≠ c.position
      ∧ (∀ e ∈ cs, e.path = c.path → first.position.before e.position = true)
      ∧ f = ⟨c.position, .pathInUse c.path first.position⟩
      ∧ f.toDiagnostic.kind = .path ∧ f.toDiagnostic.related = [first.position])
    ∧ (pathFindings cs).Pairwise (fun f g => f.position.before g.position = true ∧ f.position ≠ g.position)
    ∧ (pathFindings cs = [] ↔ (cs.map (·.path)).Nodup)
    ∧ ∀ cs', cs'.Perm cs → pathFindings cs' = pathFindings cs := by
  refine ⟨?_, sorted_pathFindings h, pathFindings_eq_nil_iff h, ?_⟩
  · intro f
    rw [mem_pathFindings_iff h]
    constructor
    · rintro ⟨c, hc, first, hfirst, hplace, rfl⟩
      rcases spec_of_holder? hfirst with ⟨hmem, hpath, hbefore⟩
      exact ⟨c, hc, first, hmem, hpath, hbefore c hc rfl, hplace, hbefore, rfl, rfl, rfl⟩
    · rintro ⟨c, hc, first, hmem, hpath, -, hplace, hbefore, rfl, -, -⟩
      -- Two holders that both come before each other stand at one place.
      rcases exists_holder hc with ⟨other, hother⟩
      rcases spec_of_holder? hother with ⟨hmem', hpath', hbefore'⟩
      have hsame := Position.before_antisymm (hbefore other hmem' hpath') (hbefore' first hmem hpath)
      obtain rfl := inj_on_of_nodup_map h hmem hmem' hsame
      exact ⟨c, hc, first, hother, hplace, rfl⟩
  · intro cs' hperm
    show clashesFrom .empty (inTextOrder cs') = clashesFrom .empty (inTextOrder cs)
    rw [inTextOrder_eq_of_perm h hperm]

/-- Three buttons with one path, out of order. -/
def threeButtons : List Control := [buttonAt "b" ⟨3, 1⟩, buttonAt "a" ⟨1, 9⟩, buttonAt "c" ⟨1, 26⟩]

/-- The last of `threeButtons` is reported with the first one in the text, however they are listed. -/
theorem pathFindings_exact_threeButtons :
    (threeButtons.map (·.position)).Nodup ∧ ⟨⟨3, 1⟩, .pathInUse "t" ⟨1, 9⟩⟩ ∈ pathFindings threeButtons
      ∧ pathFindings threeButtons ≠ [] ∧ pathFindings threeButtons.reverse = pathFindings threeButtons := by
  have h : (threeButtons.map (·.position)).Nodup := by decide
  rcases pathFindings_exact threeButtons h with ⟨hmem, -, hnil, hperm⟩
  refine ⟨h, (hmem _).mpr ⟨buttonAt "b" ⟨3, 1⟩, by decide, buttonAt "a" ⟨1, 9⟩, by decide, by decide⟩, ?_, ?_⟩
  · intro hnone
    exact absurd (hnil.mp hnone) (by decide)
  · exact hperm _ (reverse_perm threeButtons)

end

end Patchbay
