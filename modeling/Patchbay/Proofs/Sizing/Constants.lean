import Patchbay.Proofs.Sizing.Likeness
import Patchbay.Proofs.Sizing.References

/-!
# Constants are followed exactly

A name stands for the body of a valid definition without parameters. The chain of boxes from a box to a number is the
only one there is, since a name stands for one box and a number for none. So no box occurs in it twice, and the search,
which gives up at a box it has seen, goes through all of it.
-/

open List

namespace Patchbay

namespace Resolution

/-- A name stands for the next box: it is bound to a valid definition without parameters, and the box is its body. -/
inductive StandsFor (r : Resolution) : Box → Box → Prop
  | bound {mark : Mark} {name : String} {d : Definition} {body : Box} : r.userDefinition? mark.id = some d →
    d.params = [] → d.invalid = false → d.body = some body → StandsFor r (.ref mark name) body

/-- A chain of boxes, each of which stands for the next one, that ends in a number. -/
inductive LeadsTo (r : Resolution) : List Box → Binary64 → Prop
  | number (mark : Mark) (value : Binary64) (text : String) : LeadsTo r [.number mark value text] value
  | follow {b next : Box} {rest : List Box} {value : Binary64} : r.StandsFor b next →
    LeadsTo r (next :: rest) value → LeadsTo r (b :: next :: rest) value

variable {r : Resolution} {b next next' : Box} {chain before rest rest' : List Box} {value value' : Binary64}

theorem StandsFor.unique (h : r.StandsFor b next) (h' : r.StandsFor b next') : next = next' := by
  cases h with
  | bound huser _ _ hbody =>
    cases h' with
    | bound huser' _ _ hbody' =>
      obtain rfl := Option.some.inj (huser.symm.trans huser')
      exact Option.some.inj (hbody.symm.trans hbody')

/-- There is one chain from a box to a number at most. -/
theorem LeadsTo.unique (h : r.LeadsTo (b :: rest) value) (h' : r.LeadsTo (b :: rest') value') : rest = rest' := by
  induction rest generalizing b rest' with
  | nil =>
    cases h with
    | number =>
      cases h' with
      | number => rfl
      | follow hstands => cases hstands
  | cons next rest ih =>
    cases h with
    | follow hstands h =>
      cases h' with
      | number => cases hstands
      | follow hstands' h' =>
        obtain rfl := hstands.unique hstands'
        rw [ih h h']

theorem LeadsTo.number_mem (h : r.LeadsTo chain value) : ∃ mark text, Box.number mark value text ∈ chain := by
  induction h with
  | number mark _ text => exact ⟨mark, text, mem_singleton_self _⟩
  | follow _ _ ih =>
    obtain ⟨mark, text, hnumber⟩ := ih
    exact ⟨mark, text, mem_cons_of_mem _ hnumber⟩

theorem LeadsTo.suffix (h : r.LeadsTo (before ++ b :: rest) value) : r.LeadsTo (b :: rest) value := by
  induction before with
  | nil => exact h
  | cons x before ih =>
    cases before with
    | nil | cons =>
      cases h with
      | follow _ h => exact ih h

theorem LeadsTo.nodup (h : r.LeadsTo chain value) : chain.Nodup := by
  induction h with
  | number => exact nodup_singleton _
  | @follow b next rest value hstands h ih =>
    refine nodup_cons.mpr ⟨?_, ih⟩
    intro hb
    -- The rest of the chain from where the box occurs again would be another chain from it.
    obtain ⟨before, after, heq⟩ := append_of_mem hb
    have hagain : r.LeadsTo (b :: after) value := (heq ▸ h).suffix
    have hlength := congrArg List.length (heq.symm.trans ((LeadsTo.follow hstands h).unique hagain))
    simp at hlength
    omega

theorem StandsFor.exists_alias? (h : r.StandsFor b next) :
    ∃ mark name, b = .ref mark name ∧ r.alias? mark.id = some next := by
  cases h with
  | @bound mark name _ _ huser hparams hvalid hbody =>
    obtain ⟨symbol, hsymbol, -, hdefinition⟩ := Sizing.userDefinition?_eq_some_iff.mp huser
    exact ⟨mark, name, rfl, by simp [alias?, hsymbol, hdefinition, hparams, Definition.validBody?, hvalid, hbody]⟩

/-- The search goes along a chain whose boxes have different numbers and were not seen before. -/
theorem LeadsTo.constantFrom_eq (h : r.LeadsTo (b :: rest) value) (hids : ((b :: rest).map Box.id).Nodup)
    {seen : List Nat} (hseen : ∀ x ∈ b :: rest, x.id ∉ seen) {fuel : Nat} (hfuel : rest.length < fuel) :
    r.constantFrom fuel seen b = some (some value) := by
  induction rest generalizing b seen fuel with
  | nil =>
    obtain ⟨fuel, rfl⟩ := Nat.exists_eq_add_one_of_ne_zero (Nat.ne_of_gt hfuel)
    cases h with
    | number => simp [constantFrom, hseen]
  | cons next rest ih =>
    obtain ⟨fuel, rfl⟩ := Nat.exists_eq_add_one_of_ne_zero (Nat.ne_zero_of_lt hfuel)
    cases h with
    | follow hstands h =>
      obtain ⟨hnew, hids⟩ := nodup_cons.mp hids
      have hseen' : ∀ x ∈ next :: rest, x.id ∉ b.id :: seen := by
        intro x hx
        have hne : x.id ≠ b.id := fun heq => hnew (heq ▸ mem_map_of_mem hx)
        simp [hne, hseen x (mem_cons_of_mem _ hx)]
      have hnext := ih h hids hseen' (Nat.lt_of_succ_lt_succ hfuel)
      obtain ⟨mark, name, rfl, halias⟩ := hstands.exists_alias?
      have hb := hseen _ mem_cons_self
      rw [constantFrom, if_neg (by simpa using hb)]
      rw [halias]
      exact hnext

end Resolution

/-! ## Programs -/

section

variable {p : Program} {primitives : Primitives} {available : Libraries} {r : Resolution} {b next : Box}
  {rest : List Box} {value : Binary64} (hids : (p.nodes.map (·.mark.id)).Nodup)
  (hr : (p.resolve primitives available).1 = r)

include hids hr

theorem Program.standsFor_of_alias? {mark : Mark} {name : String} (h : r.alias? mark.id = some next) :
    r.StandsFor (.ref mark name) next := by
  subst hr
  unfold Resolution.alias? at h
  split at h
  · simp at h
  · rename_i symbol hsymbol
    split at h
    · simp at h
    · rename_i d hd
      have hkind := (Sizing.mem_nodes_of_symbol? primitives available hids hsymbol hd).1
      have huser := Sizing.userDefinition?_eq_some_iff.mpr ⟨symbol, hsymbol, hkind, hd⟩
      simp only [Definition.validBody?, List.isEmpty_iff, Option.ite_none_right_eq_some,
        Option.ite_none_left_eq_some, Bool.not_eq_true] at h
      exact .bound huser h.1 h.2.1 h.2.2

/-- What names of the program stand for belongs to it. -/
theorem Program.box_mem_of_leadsTo (hb : Node.box b ∈ p.nodes) (h : r.LeadsTo (b :: rest) value) :
    ∀ x ∈ b :: rest, Node.box x ∈ p.nodes := by
  induction rest generalizing b with
  | nil => simpa using hb
  | cons next rest ih =>
    cases h with
    | follow hstands h =>
      cases hstands with
      | bound huser _ _ hbody =>
        subst hr
        have hdefinition := Sizing.mem_nodes_of_userDefinition? primitives available hids huser
        have hnext := p.partsIn_nodes _ hdefinition (.box next) (by simp [Node.children, hbody])
        exact forall_mem_cons.mpr ⟨hb, ih hnext h⟩

theorem Program.leadsTo_of_constantFrom {fuel : Nat} {seen : List Nat}
    (h : r.constantFrom fuel seen b = some (some value)) : ∃ rest, r.LeadsTo (b :: rest) value := by
  induction fuel generalizing seen b with
  | zero => simp [Resolution.constantFrom] at h
  | succ fuel ih =>
    cases b with
    | number mark number text =>
      simp only [Resolution.constantFrom] at h
      split at h
      · simp at h
      · obtain rfl := Option.some.inj (Option.some.inj h)
        exact ⟨[], .number mark number text⟩
    | ref mark name =>
      simp only [Resolution.constantFrom] at h
      split at h
      · simp at h
      · split at h
        · rename_i next halias
          obtain ⟨rest, hrest⟩ := ih h
          exact ⟨next :: rest, .follow (p.standsFor_of_alias? hids hr halias) hrest⟩
        · simp at h
    | string | call | compose | block => simp [Resolution.constantFrom] at h

theorem Program.constant?_of_leadsTo (hb : Node.box b ∈ p.nodes) (h : r.LeadsTo (b :: rest) value) :
    r.constant? b = some value := by
  have hmem := p.box_mem_of_leadsTo hids hr hb h
  have hnumbers : ((b :: rest).map Box.id).Nodup := by
    refine h.nodup.map_on ?_
    intro x hx y hy hid
    exact Node.box.inj (inj_on_of_nodup_map hids (hmem x hx) (hmem y hy) hid)
  have hvalue : r.constantFrom (r.bindings.size + rest.length + 1) [] b = some (some value) :=
    h.constantFrom_eq hnumbers (fun _ _ => not_mem_nil) (by omega)
  rw [Resolution.constantFrom_eq_some (by omega)] at hvalue
  exact Option.some.inj hvalue

theorem Program.leadsTo_of_constant? (h : r.constant? b = some value) : ∃ rest, r.LeadsTo (b :: rest) value :=
  p.leadsTo_of_constantFrom hids hr (h ▸ Resolution.constantFrom_eq_some (Nat.lt_succ_self _))

/-- A constant of a program is the value of one of its numbers. -/
theorem Program.exists_number_of_constant? (hb : Node.box b ∈ p.nodes) (h : r.constant? b = some value) :
    ∃ mark text, Node.box (.number mark value text) ∈ p.nodes := by
  obtain ⟨rest, hrest⟩ := p.leadsTo_of_constant? hids hr h
  obtain ⟨mark, text, hnumber⟩ := hrest.number_mem
  exact ⟨mark, text, p.box_mem_of_leadsTo hids hr hb hrest _ hnumber⟩

/-- In a program whose nodes have different numbers the search for the value of a box ends: with more fuel than there
are bound names it has an outcome, always the same. The outcome is a value exactly if a chain of boxes of the program
leads to a number of that value, each box before it being a name bound to a valid definition without parameters whose
body is the next one. From any other box, names that lead back to themselves included, it is that there is none. -/
theorem Program.constant?_eq_some_iff_leadsTo (hb : Node.box b ∈ p.nodes) :
    (∀ fuel, r.bindings.size < fuel → r.constantFrom fuel [] b = some (r.constant? b))
    ∧ (∀ value, r.constant? b = some value ↔
      ∃ rest, r.LeadsTo (b :: rest) value ∧ ∀ x ∈ rest, Node.box x ∈ p.nodes)
    ∧ (r.constant? b = none ↔ ∀ rest value, ¬ r.LeadsTo (b :: rest) value) := by
  have hiff : ∀ value, r.constant? b = some value ↔ ∃ rest, r.LeadsTo (b :: rest) value :=
    fun _ => ⟨p.leadsTo_of_constant? hids hr, fun ⟨_, h⟩ => p.constant?_of_leadsTo hids hr hb h⟩
  refine ⟨fun fuel hfuel => Resolution.constantFrom_eq_some hfuel, fun value => (hiff value).trans ?_, ?_⟩
  · refine exists_congr fun rest => ⟨fun h => ⟨h, ?_⟩, And.left⟩
    exact (forall_mem_cons.mp (p.box_mem_of_leadsTo hids hr hb h)).2
  · rw [Option.eq_none_iff_forall_ne_some]
    exact ⟨fun hnone rest value h => hnone value ((hiff value).mpr ⟨rest, h⟩),
      fun hno value hvalue => (hiff value).mp hvalue |>.elim (hno · value)⟩

end

/-- The program `process = gain; gain = level; level = 2; loop = back; back = loop;`. -/
def aliased : Program where
  imports := []
  declarations := []
  definitions :=
    [⟨markAt 1, "process", [], some (.ref (markAt 2) "gain"), .start⟩,
      ⟨markAt 3, "gain", [], some (.ref (markAt 4) "level"), .start⟩,
      ⟨markAt 5, "level", [], some (.number (markAt 6) (Binary64.ofNat 2) "2"), .start⟩,
      ⟨markAt 7, "loop", [], some (.ref (markAt 8) "back"), .start⟩,
      ⟨markAt 9, "back", [], some (.ref (markAt 10) "loop"), .start⟩]

/-- In `aliased` names lead from `process` to the number. Those in `loop` and `back` lead to each other only. -/
theorem Program.constant?_eq_some_iff_leadsTo_aliased :
    (aliased.nodes.map (·.mark.id)).Nodup
    ∧ Node.box (.ref (markAt 2) "gain") ∈ aliased.nodes ∧ Node.box (.ref (markAt 8) "back") ∈ aliased.nodes
    ∧ (∃ rest, (aliased.resolve standardPrimitives .empty).1.LeadsTo (.ref (markAt 2) "gain" :: rest)
        (Binary64.ofNat 2))
    ∧ ∀ rest value, ¬ (aliased.resolve standardPrimitives .empty).1.LeadsTo (.ref (markAt 8) "back" :: rest) value := by
  have hids : (aliased.nodes.map (·.mark.id)).Nodup := by decide
  have hgain : Node.box (.ref (markAt 2) "gain") ∈ aliased.nodes := by
    simp [Program.nodes, aliased, Definition.nodesAll, Definition.nodes, Box.nodes]
  have hback : Node.box (.ref (markAt 8) "back") ∈ aliased.nodes := by
    simp [Program.nodes, aliased, Definition.nodesAll, Definition.nodes, Box.nodes]
  have hvalue : (aliased.resolve standardPrimitives .empty).1.constant? (.ref (markAt 2) "gain")
      = some (Binary64.ofNat 2) := by decide +kernel
  have hnone : (aliased.resolve standardPrimitives .empty).1.constant? (.ref (markAt 8) "back") = none := by
    decide +kernel
  obtain ⟨rest, hrest, -⟩ := ((aliased.constant?_eq_some_iff_leadsTo hids rfl hgain).2.1 _).mp hvalue
  exact ⟨hids, hgain, hback, ⟨rest, hrest⟩, (aliased.constant?_eq_some_iff_leadsTo hids rfl hback).2.2.mp hnone⟩

end Patchbay
