import Mathlib.Data.List.Nodup
import Mathlib.Data.List.Pairwise
import Patchbay.Proofs.Sizing.SizedNodes

/-!
# Who owns a definition

A definition owns what the blocks of its body declare. The definitions that are sized are those of the program and those
that are owned, each listed once. So a definition of the program has no owner if all definitions are different, and any
other one has a single owner.

From a definition the program's own definitions can be seen, what it owns itself, and what can be seen from its owner.
-/

open List

namespace Patchbay.Sizing

variable {c : Context} {p : Program}

/-- The definitions that a definition owns: those that the blocks of its body declare. -/
def owned (c : Context) (d : Definition) : List Definition := (bodyBoxes c d).flatMap localsOf

variable {α : Type} {d e : Definition}

/-- Four lists in another order. -/
theorem perm_append_swap (a b x y : List α) : ((a ++ b) ++ (x ++ y)).Perm ((a ++ x) ++ (b ++ y)) := by
  rw [List.append_assoc, List.append_assoc]
  refine Perm.append_left a ?_
  rw [← List.append_assoc, ← List.append_assoc]
  exact perm_append_comm.append_right y

theorem perm_flatMap_cons {f : α → List α} {g : α → List α} {l : List α}
    (h : ∀ x ∈ l, (f x).Perm (x :: (f x).flatMap g)) : (l.flatMap f).Perm (l ++ (l.flatMap f).flatMap g) := by
  rw [flatMap_assoc]
  have hheads : l.flatMap (fun x => [x]) = l := flatMap_singleton' l
  refine (Perm.flatMap_left _ h).trans ?_
  nth_rewrite 2 [← hheads]
  exact (flatMap_append_perm l (fun x => [x]) _).symm

theorem mem_owned : e ∈ owned c d ↔ ∃ mark body locals, Box.block mark body locals ∈ bodyBoxes c d ∧ e ∈ locals := by
  rw [owned, mem_flatMap]
  constructor
  · rintro ⟨b, hb, he⟩
    obtain ⟨mark, body, locals, rfl, he⟩ := exists_of_mem_localsOf he
    exact ⟨mark, body, locals, hb, he⟩
  · rintro ⟨mark, body, locals, hb, he⟩
    exact ⟨_, hb, he⟩

/-! ## Owners -/

/-- The definitions sized with a box are those that its boxes declare and those that these own. With a definition
itself is sized and what is owned. -/
theorem perm_owned : (∀ b, (definitionsIn c b).Perm
      ((boxesIn c b).flatMap localsOf ++ (definitionsIn c b).flatMap (owned c))) ∧
    ∀ d, (definitionsOf c d).Perm (d :: (definitionsOf c d).flatMap (owned c)) := by
  refine sized_induct c ?_ ?_
  · intro b hboxes hlocals
    have hsplit : ((operands c b).flatMap (definitionsIn c)).Perm
        (((operands c b).flatMap (boxesIn c)).flatMap localsOf
          ++ ((operands c b).flatMap (definitionsIn c)).flatMap (owned c)) := by
      rw [flatMap_assoc, flatMap_assoc]
      exact (Perm.flatMap_left _ hboxes).trans (flatMap_append_perm _ _ _).symm
    have hdeclared : ((localsOf b).flatMap (definitionsOf c)).Perm
        (localsOf b ++ ((localsOf b).flatMap (definitionsOf c)).flatMap (owned c)) :=
      perm_flatMap_cons hlocals
    rw [definitionsIn_eq, boxesIn_eq, flatMap_cons, flatMap_append]
    -- What the box itself declares comes before what its operands declare.
    exact (hsplit.append hdeclared).trans
      ((perm_append_swap _ _ _ _).trans (perm_append_comm.append_right _))
  · intro d hbody
    cases hvalid : d.validBody? with
    | none =>
      rw [definitionsOf_of_none hvalid, flatMap_singleton, owned, bodyBoxes_of_none hvalid]
      exact Perm.refl _
    | some body =>
      rw [definitionsOf_of_some hvalid, flatMap_cons, owned, bodyBoxes_of_some hvalid]
      exact (hbody body hvalid).cons _

theorem perm_definitionsOfAll (ds : List Definition) :
    (definitionsOfAll c ds).Perm (ds ++ (definitionsOfAll c ds).flatMap (owned c)) := by
  rw [definitionsOfAll_eq]
  exact perm_flatMap_cons fun d _ => perm_owned.2 d

/-- What a sized definition owns is sized. -/
theorem owned_subset (hd : d ∈ sizedDefinitions c p) : owned c d ⊆ sizedDefinitions c p := by
  intro e he
  exact (perm_definitionsOfAll p.definitions).mem_iff.mpr
    (mem_append_right _ (mem_flatMap.mpr ⟨d, hd, he⟩))

theorem hasLocals_sizedDefinitions (hd : d ∈ sizedDefinitions c p) :
    HasLocals (bodyBoxes c d) (sizedDefinitions c p) := by
  intro mark body locals hblock e he
  exact owned_subset hd (mem_owned.mpr ⟨mark, body, locals, hblock, he⟩)

/-- An element of lists without repetitions is in one of them. -/
theorem eq_of_mem_flatMap {β : Type} {l : List α} {f : α → List β} (h : (l.flatMap f).Nodup) {x y : α} (hx : x ∈ l)
    (hy : y ∈ l) {a : β} (hax : a ∈ f x) (hay : a ∈ f y) : x = y := by
  have hsymm : Std.Symm (Function.onFun List.Disjoint f) := ⟨fun _ _ hxy _ hx hy => hxy hy hx⟩
  by_contra hne
  exact (nodup_flatMap.mp h).2.forall hx hy hne hax hay

section

variable (hnodup : (sizedDefinitions c p).Nodup)

include hnodup

/-- A definition of the program has no owner. -/
theorem not_owned (hd : d ∈ sizedDefinitions c p) (he : e ∈ p.definitions) : e ∉ owned c d := by
  have hall := (perm_definitionsOfAll p.definitions).nodup_iff.mp hnodup
  intro howned
  exact (List.nodup_append.mp hall).2.2 e he e (mem_flatMap.mpr ⟨d, hd, howned⟩) rfl

/-- A definition has one owner. -/
theorem owner_unique {d' : Definition} (hd : d ∈ sizedDefinitions c p) (hd' : d' ∈ sizedDefinitions c p)
    (he : e ∈ owned c d) (he' : e ∈ owned c d') : d = d' := by
  have hall := (perm_definitionsOfAll p.definitions).nodup_iff.mp hnodup
  exact eq_of_mem_flatMap (List.nodup_append.mp hall).2.1 hd hd' he he'

end

/-! ## Sight -/

/-- What can be seen from a definition. -/
inductive Visible (c : Context) (p : Program) : Definition → Definition → Prop where
  | top {d e : Definition} (he : e ∈ p.definitions) : Visible c p d e
  | own {d e : Definition} (he : e ∈ owned c d) : Visible c p d e
  | outer {owner d e : Definition} (howner : owner ∈ sizedDefinitions c p) (hd : d ∈ owned c owner)
      (h : Visible c p owner e) : Visible c p d e

/-- What can be seen from a sized definition is sized. -/
theorem Visible.mem_sizedDefinitions (h : Visible c p d e) (hd : d ∈ sizedDefinitions c p) :
    e ∈ sizedDefinitions c p := by
  induction h with
  | top he => exact subset_definitionsOfAll p.definitions he
  | own he => exact owned_subset hd he
  | outer howner _ _ ih => exact ih howner

end Patchbay.Sizing
