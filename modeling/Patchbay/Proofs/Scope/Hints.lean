import Mathlib.Algebra.Order.Field.Rat
import Mathlib.Data.Prod.Lex
import Mathlib.Data.String.Basic
import Patchbay.Proofs.Scope.Arena

/-!
# Hints follow the environment

The hint at a name that nothing binds is the best one of the names in sight. The order of names does not matter for
it, nor whether a name is listed twice. So what is hinted at is a matter of the environment and not of the
scopes that hold it.
-/

open List

namespace Patchbay

namespace Table

variable {κ α : Type} [DecidableEq κ]

theorem find?_eq_none_iff {key : κ} {entries : List (κ × α)} :
    find? key entries = none ↔ key ∉ entries.map (·.1) := by
  induction entries with
  | nil => simp [find?]
  | cons e rest ih =>
    obtain ⟨k, v⟩ := e
    by_cases hk : k = key
    · simp [find?, hk]
    · simp [find?, hk, ih, Ne.symm hk]

theorem mem_keys_iff {t : Table κ α} {key : κ} : key ∈ t.keys ↔ ∃ value, t.get? key = some value := by
  rw [← Option.ne_none_iff_exists']
  exact (not_iff_comm.mp find?_eq_none_iff.symm).symm

end Table

/-! ## Similar words -/

namespace Text

/-- The rational number of a fraction. -/
def Ratio.value (r : Ratio) : ℚ := r.part / r.whole

/-- A fraction is below another one if its number is. -/
theorem Ratio.lt_iff {r s : Ratio} (hr : 0 < r.whole) (hs : 0 < s.whole) :
    (r.le s && !s.le r) ↔ r.value < s.value := by
  have hr' : (0 : ℚ) < r.whole := Nat.cast_pos.mpr hr
  have hs' : (0 : ℚ) < s.whole := Nat.cast_pos.mpr hs
  have hlt : r.value < s.value ↔ r.part * s.whole < s.part * r.whole := by
    unfold Ratio.value
    rw [div_lt_div_iff₀ hr' hs']
    exact_mod_cast Iff.rfl
  rw [hlt]
  simp only [Ratio.le, Bool.and_eq_true, Bool.not_eq_true', decide_eq_true_eq, decide_eq_false_iff_not]
  omega

theorem whole_similarity (word candidate : List Char) : 0 < (similarity word candidate).whole := by
  unfold similarity
  dsimp only
  split
  · exact Nat.one_pos
  · show 0 < word.length + candidate.length
    omega

/-- What rated candidates are compared by. -/
def rank (r : Ratio × String) : ℚ ×ₗ String := toLex (r.1.value, r.2)

theorem rank_better {a b : Ratio × String} (ha : 0 < a.1.whole) (hb : 0 < b.1.whole) :
    rank (better a b) = max (rank a) (rank b) := by
  unfold better
  simp only [Ratio.lt_iff ha hb, Ratio.lt_iff hb ha]
  rcases lt_trichotomy a.1.value b.1.value with hlt | heq | hlt
  · have hrank : rank a < rank b := Prod.Lex.lt_iff.mpr (.inl hlt)
    rw [max_eq_right hrank.le, if_pos hlt]
  · rw [if_neg heq.not_lt, if_neg heq.not_gt]
    by_cases htext : a.2 < b.2
    · have hrank : rank a < rank b := Prod.Lex.lt_iff.mpr (.inr ⟨heq, htext⟩)
      rw [max_eq_right hrank.le, if_pos htext]
    · have hrank : rank b ≤ rank a := Prod.Lex.le_iff.mpr (.inr ⟨heq.symm, not_lt.mp htext⟩)
      rw [max_eq_left hrank, if_neg htext]
  · have hrank : rank b < rank a := Prod.Lex.lt_iff.mpr (.inl hlt)
    rw [max_eq_left hrank.le, if_neg hlt.not_gt, if_pos hlt]

theorem whole_better {a b : Ratio × String} (ha : 0 < a.1.whole) (hb : 0 < b.1.whole) :
    0 < (better a b).1.whole := by
  unfold better
  split
  · exact hb
  · split
    · exact ha
    · split
      · exact hb
      · exact ha

theorem rank_foldl_better {r : Ratio × String} {rs : List (Ratio × String)} (hr : 0 < r.1.whole)
    (hrs : ∀ s ∈ rs, 0 < s.1.whole) :
    rank (rs.foldl better r) = (rs.map rank).foldl max (rank r) := by
  induction rs generalizing r with
  | nil => rfl
  | cons s rest ih =>
    have hs := hrs s mem_cons_self
    rw [foldl_cons, ih (whole_better hr hs) fun s hs => hrs s (mem_cons_of_mem _ hs), rank_better hr hs]
    rfl

/-- Candidates that reach the cutoff, as they are compared. -/
def ranked (cutoff : Ratio) (word : String) (candidates : List String) : List (ℚ ×ₗ String) :=
  ((candidates.map fun c => (similarity word.toList c.toList, c)).filter fun r => cutoff.le r.1).map rank

/-- The closest candidate is the greatest one. -/
theorem closest?_eq (cutoff : Ratio) (word : String) (candidates : List String) :
    closest? cutoff word candidates = (ranked cutoff word candidates).max?.map fun k => (ofLex k).2 := by
  unfold closest? ranked
  have hpositive : ∀ r ∈ (candidates.map fun c => (similarity word.toList c.toList, c)).filter
      (fun r => cutoff.le r.1), 0 < r.1.whole := by
    intro r hr
    obtain ⟨c, -, rfl⟩ := mem_map.mp (mem_filter.mp hr).1
    exact whole_similarity word.toList c.toList
  dsimp only
  generalize ((candidates.map fun c => (similarity word.toList c.toList, c)).filter
    fun r => cutoff.le r.1) = rated at hpositive
  cases rated with
  | nil => rfl
  | cons r rs =>
    have hfold := rank_foldl_better (hpositive r mem_cons_self)
      fun s hs => hpositive s (mem_cons_of_mem _ hs)
    show some (rs.foldl better r).2 = some (ofLex ((rs.map rank).foldl max (rank r))).2
    rw [← hfold]
    rfl

theorem max?_congr {α : Type} [LinearOrder α] {l l' : List α} (h : ∀ a, a ∈ l ↔ a ∈ l') :
    l.max? = l'.max? := by
  refine Option.ext fun a => ?_
  simp only [max?_eq_some_iff, h]

/-- Which candidate is closest depends only on which ones there are. -/
theorem closest?_congr (cutoff : Ratio) (word : String) {candidates candidates' : List String}
    (h : ∀ c, c ∈ candidates ↔ c ∈ candidates') :
    closest? cutoff word candidates = closest? cutoff word candidates' := by
  rw [closest?_eq, closest?_eq]
  congr 1
  refine max?_congr ?_
  intro k
  simp only [ranked, mem_map, mem_filter, h]

end Text

/-! ## Names in sight -/

theorem ScopeTree.mem_visibleNames_iff (tree : ScopeTree) (scope : Option Int) (name : String) :
    name ∈ tree.visibleNames scope ↔ (tree.find? scope name).isSome := by
  unfold visibleNames find?
  rw [mem_flatMap, findSome?_isSome_iff]
  simp only [Table.mem_keys_iff, Option.isSome_iff_exists]

namespace Lexical

open Resolver

variable {tree tree' : ScopeTree} {scope scope' : Nat} {env : Env}

/-- The hint at a name is the same from all scopes that see an environment. -/
theorem hint_congr (context : Context) (h : tree.Sees scope env) (h' : tree'.Sees scope' env) (name : String) :
    hint context tree scope name = hint context tree' scope' name := by
  have hvisible : ∀ n, n ∈ tree.visibleNames (some (scope : Int)) ↔ n ∈ tree'.visibleNames (some (scope' : Int)) := by
    intro n
    rw [ScopeTree.mem_visibleNames_iff, ScopeTree.mem_visibleNames_iff, h n, h' n]
  unfold hint didYouMean
  congr 1
  have hcandidates : ∀ n,
      n ∈ (tree.visibleNames (some (scope : Int))).filter (fun n => Text.isIdentifier n.toList)
        ++ context.imported.flatMap (fun library => library.symbols.keys)
      ↔ n ∈ (tree'.visibleNames (some (scope' : Int))).filter (fun n => Text.isIdentifier n.toList)
        ++ context.imported.flatMap (fun library => library.symbols.keys) := by
    simp only [mem_append, mem_filter, hvisible, implies_true]
  have hclosest := Text.closest?_congr ⟨3, 4⟩ name hcandidates
  dsimp only
  rw [hclosest]

open Classical in
/-- The hint at a name in an environment, as seen from any scope that sees it. -/
noncomputable def hintIn (context : Context) (env : Env) (name : String) : Option String :=
  if h : ∃ tree : ScopeTree, ∃ scope, tree.Sees scope env then
    hint context h.choose h.choose_spec.choose name
  else none

theorem hint_eq (context : Context) (h : tree.Sees scope env) (name : String) :
    hint context tree scope name = hintIn context env name := by
  have hexists : ∃ tree : ScopeTree, ∃ scope, tree.Sees scope env := ⟨tree, scope, h⟩
  rw [hintIn, dif_pos hexists]
  exact hint_congr context h hexists.choose_spec.choose_spec name

end Lexical

end Patchbay
