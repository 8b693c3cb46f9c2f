import Patchbay.Proofs.Analysis.Returning
import Patchbay.Proofs.Sizing.Cycles
import Patchbay.Proofs.Sizing.Reliance

/-!
# Cycles that are reported

Sizing follows a name to its definition, and it follows the head of a call when all arguments have a dimension. It does
not look at the variable and the count of an iteration. So a cycle of definitions that ask for one another in this way
is reported, and one that closes only through other references need not be.
-/

open List

namespace Patchbay

namespace Sizing

variable {c : Context} {D ds : List Definition} {s : State} {p : Program}

/-- A definition refers to another one: its body holds a name or a call that is bound to it. -/
def RefersTo (r : Resolution) (d e : Definition) : Prop := ∃ b, d.Holds b ∧ Delay.referred? r b = some e

/-- A definition asks for another one, given the dimensions that were found. The boxes that are sized with its body are
those outside local definitions and outside the variables and the counts of iterations. -/
inductive Asks (c : Context) (s : State) (d e : Definition) : Prop where
  | name {mark : Mark} {name : String} (hb : .ref mark name ∈ bodyBoxes c d)
      (he : c.resolution.userDefinition? mark.id = some e)
  | call {mark : Mark} {name : String} {args : List Box} (hb : .call mark name args ∈ bodyBoxes c d)
      (he : c.resolution.userDefinition? mark.id = some e) (hargs : ∀ a ∈ args, (s.dim? a).isSome = true)
  | declaration {mark : Mark} {body : Box} {locals : List Definition} (hb : .block mark body locals ∈ bodyBoxes c d)
      (he : e ∈ locals)

theorem Asks.demands {d e : Definition} (h : Asks c s d e) : ∃ b ∈ bodyBoxes c d, Demands c s.dim? b e := by
  cases h with
  | name hb he => exact ⟨_, hb, he⟩
  | call hb he hargs => exact ⟨_, hb, hargs, he⟩
  | declaration hb he => exact ⟨_, hb, he⟩

/-- The operands of a box that is sized with a definition are sized with it. -/
theorem operands_subset_bodyBoxes {d : Definition} {b : Box} (hb : b ∈ bodyBoxes c d) :
    operands c b ⊆ bodyBoxes c d := by
  have hoperand {y x : Box} (hx : x ∈ operands c y) : boxesIn c x ⊆ boxesIn c y := by
    intro z hz
    rw [boxesIn_eq y]
    exact mem_cons_of_mem _ (mem_flatMap.mpr ⟨x, hx, hz⟩)
  cases hbody : d.validBody? with
  | none =>
    rw [bodyBoxes_of_none hbody] at hb
    cases hb
  | some body =>
    rw [bodyBoxes_of_some hbody] at hb ⊢
    have hsub : boxesIn c b ⊆ boxesIn c body :=
      of_mem_boxesIn (P := fun y => boxesIn c y ⊆ boxesIn c body)
        (fun y hy x hx => List.Subset.trans (hoperand hx) hy) body (List.Subset.refl _) b hb
    intro x hx
    refine hsub (hoperand hx ?_)
    rw [boxesIn_eq x]
    exact mem_cons_self

/-- If no cycle is reported and the machine is not stopped, no definition asks for itself, directly or through
others. -/
theorem not_transGen_asks (primitives : Primitives) (available : Libraries) (hids : (p.nodes.map (·.mark.id)).Nodup)
    (hc : c = programSizing primitives available p)
    (hvalid : ∀ d ∈ sizedDefinitions c p, ∀ b ∈ bodyBoxes c d, b.invalid = false)
    (hcycle : NoCycle (sizeProgram c p).findings) (hfault : (sizeProgram c p).fault = none) {d : Definition}
    (hd : d ∈ sizedDefinitions c p) : ¬ Relation.TransGen (Asks c (sizeProgram c p)) d d := by
  have hground := (grounded_iff primitives available hids c hc hvalid).mpr ⟨hcycle, hfault⟩
  obtain ⟨hhistory, hends⟩ := sizeProgram_ends primitives available hids c hc
  obtain ⟨hframes, hdefinitions, -⟩ := hends hfault
  obtain ⟨hD, hds⟩ := domain_program primitives available hids hc
  have hrecord := hhistory.record hD hds
  obtain ⟨hfollows, -⟩ := hhistory.follows hD hds hcycle hfault
  obtain ⟨-, hsized⟩ := hrecord.complete hD hframes hdefinitions
  -- All operands were sized, so what a definition asks for in the end is what it relies on.
  have hrelies {x e : Definition} (hx : x ∈ sizedDefinitions c p) (h : Asks c (sizeProgram c p) x e) :
      Relies c e x ∧ e ∈ sizedDefinitions c p := by
    obtain ⟨b, hb, hdemands⟩ := h.demands
    have hknown : ∀ y ∈ operands c b, (sizeProgram c p).dim? y = value c y := by
      intro y hy
      refine hrecord.dim?_eq_value hfollows (hsized.mem_iff.mpr ?_)
      exact mem_flatMap.mpr ⟨x, hx, operands_subset_bodyBoxes hb hy⟩
    exact ⟨⟨b, hb, (demands_congr hknown).mp hdemands⟩, hD.mem_of_demands hx hb hdemands⟩
  have hall {e : Definition} (h : Relation.TransGen (Asks c (sizeProgram c p)) d e) :
      Relation.TransGen (Relies c) e d ∧ e ∈ sizedDefinitions c p := by
    induction h with
    | single h =>
      obtain ⟨hfirst, he⟩ := hrelies hd h
      exact ⟨.single hfirst, he⟩
    | tail _ h ih =>
      obtain ⟨hnext, he⟩ := hrelies ih.2 h
      exact ⟨ih.1.head hnext, he⟩
  exact fun h => hground.not_transGen hd (hall h).1

end Sizing

open Sizing in
/-- In a program that was read, a cycle of sized definitions that ask for one another is reported, if the program has
dimensions. It has dimensions if its numbers are finite and the findings can be written. -/
theorem Program.cycles_reported (available : Libraries) {tokens : List Token} {maxDepth : Int} {p : Program}
    {findings : List Finding} (hparse : Program.parse tokens maxDepth = .ok (p, findings)) :
    let c := programSizing standardPrimitives available p
    (∀ s, p.dimensions (p.resolve standardPrimitives available).1 standardPrimitives = .ok s →
      ∀ d ∈ sizedDefinitions c p, Relation.TransGen (Asks c s) d d → ∃ f ∈ s.findings, f.issue.kind = .circular)
    ∧ ((∀ mark value text, Node.box (.number mark value text) ∈ p.nodes → value.isFinite = true) →
      (∀ f ∈ (p.sized available).findings, f.issue.isWritable = true) →
      ∃ s, p.dimensions (p.resolve standardPrimitives available).1 standardPrimitives = .ok s) := by
  intro c
  have hids := Program.nodup_ids_of_parse hparse
  constructor
  · intro s hs d hd hcycle
    obtain ⟨rfl, hfault, -⟩ := dimensions_eq_ok_iff.mp hs
    by_contra hnone
    refine not_transGen_asks standardPrimitives available hids rfl ?_ ?_ hfault hd hcycle
    · exact fun x hx b hb => valid_of_mem_bodyBoxes (fun n hn => Program.whole_of_parse hparse hn) hx hb
    · intro f hf names site hissue
      exact hnone ⟨f, hf, by rw [hissue]; rfl⟩
  · exact fun hfinite hwritable => ⟨_, Program.dimensions_eq_sized available hids hfinite hwritable⟩

/-- The definition of `f` in `process = f; f(x) = g; g = f(_);`. -/
def outward : Definition := ⟨⟨3, ⟨1, 14⟩, false⟩, "f", ["x"], some (.ref ⟨4, ⟨1, 21⟩, false⟩ "g"), ⟨1, 23⟩⟩

/-- The definition of `g` in `process = f; f(x) = g; g = f(_);`. -/
def backward : Definition :=
  ⟨⟨5, ⟨1, 24⟩, false⟩, "g", [], some (.call ⟨6, ⟨1, 28⟩, false⟩ "f" [.ref ⟨7, ⟨1, 30⟩, false⟩ "_"]), ⟨1, 33⟩⟩

/-- The program `process = f; f(x) = g; g = f(_);`. -/
def returning : Program where
  imports := []
  declarations := []
  definitions :=
    [⟨⟨1, ⟨1, 1⟩, false⟩, "process", [], some (.ref ⟨2, ⟨1, 11⟩, false⟩ "f"), ⟨1, 13⟩⟩, outward, backward]

open Sizing in
/-- In `returning` a name leads from `f` to `g` and a call leads back. Its argument has a dimension, so the cycle is
reported. -/
theorem Program.cycles_reported_returning :
    let c := programSizing standardPrimitives .empty returning
    Program.parse (scan "process = f; f(x) = g; g = f(_);").1 100 = .ok (returning, [])
    ∧ ∃ s, returning.dimensions (returning.resolve standardPrimitives .empty).1 standardPrimitives = .ok s
      ∧ outward ∈ sizedDefinitions c returning ∧ Relation.TransGen (Asks c s) outward outward
      ∧ ∃ f ∈ s.findings, f.issue.kind = .circular := by
  intro c
  have hparse : Program.parse (scan "process = f; f(x) = g; g = f(_);").1 100 = .ok (returning, []) := by
    with_unfolding_all rfl
  have hs := dimensions_eq_ok_iff.mpr ⟨rfl,
    (by decide : (sizeProgram (programSizing standardPrimitives .empty returning) returning).fault = none),
    by decide⟩
  have hsized : outward ∈ sizedDefinitions c returning := subset_definitionsOfAll _ (by simp [returning])
  have hname : c.resolution.userDefinition? 4 = some backward := rfl
  have hhead : c.resolution.userDefinition? 6 = some outward := rfl
  have hcycle : Relation.TransGen (Asks c (sizeProgram c returning)) outward outward := by
    refine .tail (.single (.name mem_cons_self hname)) (.call mem_cons_self hhead ?_)
    intro a ha
    rw [mem_singleton.mp ha]
    decide
  obtain ⟨hreported, -⟩ := Program.cycles_reported .empty hparse
  exact ⟨hparse, _, hs, hsized, hcycle, hreported _ hs outward hsized hcycle⟩

open Sizing in
/-- A text that is read and resolved without a finding, and in which a definition refers to itself, directly or through
others, but no cycle is reported. -/
def Unreported (source : String) : Prop :=
  ∃ p s d, (scan source).2 = [] ∧ Program.parse (scan source).1 100 = .ok (p, [])
    ∧ (p.resolve standardPrimitives .empty).2 = []
    ∧ p.dimensions (p.resolve standardPrimitives .empty).1 standardPrimitives = .ok s
    ∧ Node.definition d ∈ p.nodes ∧ Relation.TransGen (RefersTo (p.resolve standardPrimitives .empty).1) d d
    ∧ ∀ f ∈ s.findings, f.issue.kind ≠ .circular

open Sizing in
/-- Sizing that finds nothing reports no cycle. -/
theorem Unreported.of_silent {source : String} {p : Program} (d : Definition) (hscan : (scan source).2 = [])
    (hparse : Program.parse (scan source).1 100 = .ok (p, []))
    (hresolve : (p.resolve standardPrimitives .empty).2 = [])
    (hfault : (sizeProgram (programSizing standardPrimitives .empty p) p).fault = none)
    (hsilent : (sizeProgram (programSizing standardPrimitives .empty p) p).findings = [])
    (hd : Node.definition d ∈ p.nodes)
    (hcycle : Relation.TransGen (RefersTo (p.resolve standardPrimitives .empty).1) d d) : Unreported source := by
  refine ⟨p, _, d, hscan, hparse, hresolve, dimensions_eq_ok_iff.mpr ⟨rfl, hfault, ?_⟩, hd, hcycle, ?_⟩
  · exact hsilent ▸ rfl
  · intro f hf
    exact absurd (hsilent ▸ hf) not_mem_nil

/-- The definition of `f` in `f(x) = f(_ : x); process = f;`. -/
def hesitant : Definition :=
  ⟨⟨1, ⟨1, 1⟩, false⟩, "f", ["x"],
    some (.call ⟨2, ⟨1, 8⟩, false⟩ "f"
      [.compose ⟨5, ⟨1, 12⟩, false⟩ .seq (.ref ⟨3, ⟨1, 10⟩, false⟩ "_") (.ref ⟨4, ⟨1, 14⟩, false⟩ "x")]),
    ⟨1, 17⟩⟩

/-- The definition of `n` in `n = par(i, n, _); process = n;`. -/
def counting : Definition :=
  ⟨⟨1, ⟨1, 1⟩, false⟩, "n", [],
    some (.call ⟨2, ⟨1, 5⟩, false⟩ "par"
      [.ref ⟨3, ⟨1, 9⟩, false⟩ "i", .ref ⟨4, ⟨1, 12⟩, false⟩ "n", .ref ⟨5, ⟨1, 15⟩, false⟩ "_"]),
    ⟨1, 18⟩⟩

/-- The local definition of `a` in `process = par(i, a with { a = a; }, _);`. -/
def hidden : Definition := ⟨⟨6, ⟨1, 27⟩, false⟩, "a", [], some (.ref ⟨7, ⟨1, 31⟩, false⟩ "a"), ⟨1, 33⟩⟩

/-- The definition of `process` in `process = par(i, a with { a = a; }, _);`. -/
def sheltering : Definition :=
  ⟨⟨1, ⟨1, 1⟩, false⟩, "process", [],
    some (.call ⟨2, ⟨1, 11⟩, false⟩ "par"
      [.ref ⟨3, ⟨1, 15⟩, false⟩ "i", .block ⟨5, ⟨1, 20⟩, false⟩ (.ref ⟨4, ⟨1, 18⟩, false⟩ "a") [hidden],
        .ref ⟨8, ⟨1, 37⟩, false⟩ "_"]),
    ⟨1, 40⟩⟩

open Sizing in
/-- Three cycles that are not reported: a call whose argument has no dimension, the count of an iteration, and a local
definition there. -/
theorem Program.cycles_unreported :
    Unreported "f(x) = f(_ : x); process = f;" ∧ Unreported "n = par(i, n, _); process = n;"
      ∧ Unreported "process = par(i, a with \x7b a = a; \x7d, _);" := by
  have hcount : (Box.ref ⟨4, ⟨1, 12⟩, false⟩ "n").Within
      (.call ⟨2, ⟨1, 5⟩, false⟩ "par"
        [.ref ⟨3, ⟨1, 9⟩, false⟩ "i", .ref ⟨4, ⟨1, 12⟩, false⟩ "n", .ref ⟨5, ⟨1, 15⟩, false⟩ "_"]) :=
    .single (by simp [Node.children])
  refine ⟨?_, ?_, ?_⟩
  · exact .of_silent
      (p := ⟨[], [], [hesitant, ⟨⟨6, ⟨1, 18⟩, false⟩, "process", [], some (.ref ⟨7, ⟨1, 28⟩, false⟩ "f"), ⟨1, 30⟩⟩]⟩)
      hesitant (by decide) (by with_unfolding_all rfl) (by decide) (by decide) (by decide)
      (mem_of_getElem? (rfl : _[1]? = some _)) (.single ⟨_, ⟨_, rfl, .refl⟩, rfl⟩)
  · exact .of_silent
      (p := ⟨[], [], [counting, ⟨⟨6, ⟨1, 19⟩, false⟩, "process", [], some (.ref ⟨7, ⟨1, 29⟩, false⟩ "n"), ⟨1, 31⟩⟩]⟩)
      counting (by decide) (by with_unfolding_all rfl) (by decide) (by decide) (by decide)
      (mem_of_getElem? (rfl : _[1]? = some _)) (.single ⟨_, ⟨_, rfl, hcount⟩, rfl⟩)
  · exact .of_silent (p := ⟨[], [], [sheltering]⟩)
      hidden (by decide) (by with_unfolding_all rfl) (by decide) (by decide) (by decide)
      (mem_of_getElem? (rfl : _[6]? = some _)) (.single ⟨_, ⟨_, rfl, .refl⟩, rfl⟩)

end Patchbay
