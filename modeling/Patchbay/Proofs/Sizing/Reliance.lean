import Mathlib.Logic.Relation
import Patchbay.Proofs.Sizing.RecursiveSizing

/-!
# When sizing meets no cycle

A definition relies on another one if a box of its body has to know the dimension of that one. Whether it has to is a
matter of the dimensions of its operands, and these are given by recursion. So there is a condition for sizing to
report no cycle and not to be stopped that says nothing about the course of the machine: the definitions are grounded,
as none of them relies on itself, directly or through others, and no box halts. The order in which definitions come to
be sized does not occur in it.
-/

open List

namespace Patchbay.Sizing

variable {c : Context} {D ds : List Definition} {ms : List Moment} {s : State} {p : Program}

/-! ## Operands -/

variable {b : Box} {d e : Definition} {below : List Frame}

section Operands

variable {dim? dim?' : Box → Option Dimension} {b : Box}

/-- What a box demands depends on its operands. -/
theorem demands_congr (h : ∀ x ∈ operands c b, dim? x = dim?' x) : Demands c dim? b e ↔ Demands c dim?' b e := by
  cases b with
  | call mark name args =>
    cases hparts : iterationParts? c mark.id name args with
    | some parts =>
      -- The head of an iteration is no definition, so nothing is demanded.
      have huser := userDefinition?_of_iterationParts? hparts
      simp [Demands, huser]
    | none =>
      have hargs : ∀ a ∈ args, dim? a = dim?' a := by
        intro a ha
        exact h a (by simpa [operands, hparts] using ha)
      refine and_congr_left' (forall₂_congr ?_)
      intro a ha
      rw [hargs a ha]
  | ref | number | string | compose | block => exact Iff.rfl

/-- Whether a box halts depends on its operands. -/
theorem halts_congr (h : ∀ x ∈ operands c b, dim? x = dim?' x) : Halts c dim? b ↔ Halts c dim?' b := by
  cases b with
  | call mark name args =>
    unfold Halts
    dsimp only
    cases hparts : iterationParts? c mark.id name args with
    | some parts =>
      have hbody : dim? parts.2 = dim?' parts.2 := h parts.2 (by simp [operands, hparts])
      dsimp only
      rw [hbody]
    | none => exact Iff.rfl
  | ref | number | string | compose | block => exact Iff.rfl

end Operands

/-! ## Outcomes -/

open Classical in
/-- The outcome that the recursion gives to a box at any depth that is enough. -/
noncomputable def outcome (c : Context) (b : Box) : Outcome :=
  if h : ∃ outcome depth, evaluate c depth b = some outcome then h.choose else .silent none

theorem outcome_eq {found : Outcome} {depth : Nat} (h : evaluate c depth b = some found) : outcome c b = found := by
  have hexists : ∃ outcome depth, evaluate c depth b = some outcome := ⟨found, depth, h⟩
  obtain ⟨depth', h'⟩ := hexists.choose_spec
  rw [outcome, dif_pos hexists]
  -- Both outcomes are that of the greater depth.
  exact Option.some.inj ((evaluate_mono (Nat.le_max_right depth depth') h').symm.trans
    (evaluate_mono (Nat.le_max_left depth depth') h))

/-- The dimension that the recursion gives to a box. -/
noncomputable def value (c : Context) (b : Box) : Option Dimension := (outcome c b).dim

/-- The machine knows the values of sized boxes. -/
theorem Record.dim?_eq_value (h : Record c D ms s) (hfollows : Follows c ms) (hb : b ∈ sizings ms) :
    s.dim? b = value c b := by
  obtain ⟨m, hm, hmb⟩ := mem_sizings.mp hb
  obtain ⟨depth, hevaluate⟩ := hfollows m hm b hmb
  rw [value, outcome_eq hevaluate]
  exact h.boxes m hm b hmb

/-- The machine knows the values of the operands of a ready box. -/
theorem Record.dim?_eq_value_of_ready (h : Record c D ms s) (hfollows : Follows c ms) {rest : List (Box × Bool)}
    (hframes : s.frames = ⟨d, (b, true) :: rest⟩ :: below) : ∀ x ∈ operands c b, s.dim? x = value c x := by
  obtain ⟨-, -, -, hoperands⟩ := h.mem_bodyBoxes hframes
  exact fun x hx => h.dim?_eq_value hfollows (hoperands x hx)

/-! ## Groundedness -/

/-- The second definition relies on the first one. -/
def Relies (c : Context) (e d : Definition) : Prop := ∃ b ∈ bodyBoxes c d, Demands c (value c) b e

/-- No definition relies on itself, directly or through others, and no box halts. -/
structure Grounded (c : Context) (D : List Definition) : Prop where
  accessible : ∀ d ∈ D, Acc (Relies c) d
  sound : ∀ d ∈ D, ∀ b ∈ bodyBoxes c d, ¬ Halts c (value c) b

theorem not_rel_self_of_acc {α : Type} {r : α → α → Prop} {a : α} (h : Acc r a) : ¬ r a a := by
  induction h with
  | intro a _ ih =>
    intro haa
    exact ih a haa haa

theorem Grounded.not_transGen (h : Grounded c D) (hd : d ∈ D) : ¬ Relation.TransGen (Relies c) d d :=
  not_rel_self_of_acc (h.accessible d hd).transGen

/-! ## Sizing without cycles is grounded -/

/-- What was done in a moment is done in the end. -/
theorem History.done_subset (h : History c ds ms s) {m : Moment} (hm : m ∈ ms) : m.state.done ⊆ s.done := by
  induction h with
  | start => cases hm
  | @act ms s a _ _ _ ih =>
    intro id hid
    refine (mem_done_after c s a).mpr (.inl ?_)
    rcases mem_append.mp hm with hm | hm
    · exact ih hm hid
    · obtain rfl := mem_singleton.mp hm
      exact hid

section

variable (hD : Domain c D) (hds : ds ⊆ D) (hvalid : ∀ d ∈ D, ∀ b ∈ bodyBoxes c d, b.invalid = false)

include hD hds hvalid

/-- If no cycle is reported and the machine is not stopped, sized boxes demand definitions that are done and do not
halt. -/
theorem History.settles (h : History c ds ms s) (hcycle : NoCycle s.findings) (hfault : s.fault = none)
    (hb : b ∈ sizings ms) : (∀ e, Demands c (value c) b e → e.id ∈ s.done) ∧ ¬ Halts c (value c) b := by
  obtain ⟨⟨t, a⟩, hm, rfl⟩ := mem_sizings.mp hb
  obtain ⟨before, -, hbefore, hrunning, ha⟩ := h.exists_of_mem hm
  have hcycle' := hcycle.of_subset (h.findings_subset hm)
  have hfault' := h.fault_after hfault hm
  have hstart : NoCycle t.findings := by
    refine hcycle'.of_subset ?_
    rw [Moment.after, findings_after]
    exact subset_append_left _ _
  obtain ⟨hfollows, -⟩ := hbefore.follows hD hds hstart hrunning
  have hrecord := hbefore.record hD hds
  cases ha with
  | @sizing d _ rest below hframes hneeded =>
    have hkeeps := keeps_sizeBox c t b
    have hknown := hrecord.dim?_eq_value_of_ready hfollows hframes
    obtain ⟨hd, hbody, -, -⟩ := hrecord.mem_bodyBoxes hframes
    rw [Moment.after, findings_after_sizing] at hcycle'
    rw [Moment.after, after_sizing c hframes, (enter_eq _ _ _).2.2.2.2] at hfault'
    constructor
    · intro e he
      rw [← demands_congr hknown, ← mem_needs_iff] at he
      refine h.done_subset hm ?_
      by_contra hnot
      have hdone : ¬ t.isDone e := by simpa [State.isDone] using hnot
      -- A definition that is being sized would close a cycle.
      have hcloses : t.Closes e :=
        ⟨by simpa using hdone, (done_or_active_of_nextNeeded? hneeded he).resolve_left hdone⟩
      exact (hkeeps.cycle hstart).mp hcycle' ⟨hvalid d (hrecord.subset hd) b hbody, e, he, hcloses⟩
    · rw [← halts_congr hknown]
      exact (hkeeps.fault hrunning).mp hfault'

/-- Definitions rely on one another in the order in which they were done. -/
theorem History.accessible (h : History c ds ms s) (hcycle : NoCycle s.findings) (hfault : s.fault = none) (hd : d ∈ D)
    (hdone : d.id ∈ s.done) : Acc (Relies c) d := by
  induction h generalizing d with
  | start => cases hdone
  | @act ms s a h hrunning ha ih =>
    have hstart : NoCycle s.findings := hcycle.of_subset (findings_after c s a ▸ subset_append_left _ _)
    rcases (mem_done_after c s a).mp hdone with hdone | ⟨e, hid, ⟨rfl, hbody⟩ | rfl⟩
    · exact ih hstart hrunning hd hdone
    · -- A definition that could not be read relies on nothing.
      obtain ⟨he, -⟩ := ha.not_opened (h.course hD hds).1 hD hds
      obtain rfl : e = d := hD.definition_eq he hd hid
      constructor
      rintro e' ⟨b, hb, -⟩
      rw [bodyBoxes_of_none hbody] at hb
      cases hb
    · -- All boxes of a definition that is closed were sized, so what it relies on was done before.
      obtain ⟨hcourse, -⟩ := (h.act hrunning ha).course hD hds
      have hopened : d ∈ (openings (ms ++ [⟨s, .closing e⟩])).reverse :=
        (hcourse.mem_opened_iff hD hd).mpr (.inl (by simpa [State.isDone] using hdone))
      constructor
      rintro e' ⟨b, hb, he'⟩
      have hsized := hcourse.settled_of_done hD hopened hdone hb
      rw [sizings_of_not_sizing rfl] at hsized
      exact ih hstart hrunning (hD.mem_of_demands hd hb he')
        ((h.settles hD hds hvalid hstart hrunning hsized).1 e' he')

end

/-! ## Sizing of grounded definitions meets no cycle -/

/-- The machine was not stopped and met no cycle, and each definition being sized is one that those below it rely on. -/
structure Descending (c : Context) (s : State) : Prop where
  cycle : NoCycle s.findings
  fault : s.fault = none
  linked : (s.frames.map (·.definition)).Pairwise (Relation.TransGen (Relies c))

namespace Descending

/-- Opening a definition that the innermost one relies on. -/
theorem openDefinition (h : Descending c s) (hlink : ∀ d ∈ (s.frames.map (·.definition)).head?, Relies c e d) :
    Descending c (s.openDefinition e) := by
  obtain ⟨hfindings, hfault, -⟩ := openDefinition_eq s e
  refine ⟨hfindings ▸ h.cycle, hfault.trans h.fault, ?_⟩
  unfold State.openDefinition
  cases e.validBody? with
  | none => exact h.linked
  | some body =>
    have hlinked := h.linked
    show (e :: s.frames.map (·.definition)).Pairwise _
    cases hs : s.frames.map (·.definition) with
    | nil => exact pairwise_singleton _ _
    | cons d below =>
      rw [hs] at hlinked
      have hfirst : Relies c e d := hlink d (by simp [hs])
      refine hlinked.cons ?_
      intro d' hd'
      rcases mem_cons.mp hd' with rfl | hd'
      · exact .single hfirst
      · exact (Relation.TransGen.single hfirst).trans (rel_of_pairwise_cons hlinked hd')

/-- A definition that the innermost one relies on is not being sized. -/
theorem not_closes (h : Descending c s) (hground : Grounded c D) (hD : Domain c D)
    (hframed : ∀ f ∈ s.frames, f.definition ∈ D) {pending : List (Box × Bool)}
    (hframes : s.frames = ⟨d, pending⟩ :: below) (he : e ∈ D) (hlink : Relies c e d) : ¬ s.Closes e := by
  rintro ⟨-, hactive⟩
  have hd : d ∈ D := hframed ⟨d, pending⟩ (by simp [hframes])
  have hlinked := h.linked
  rw [State.isActive, any_eq_true] at hactive
  obtain ⟨f, hf, hid⟩ := hactive
  obtain rfl : f.definition = e := hD.definition_eq (hframed f hf) he (beq_iff_eq.mp hid)
  rw [hframes] at hf hlinked
  rcases mem_cons.mp hf with rfl | hf
  · exact hground.not_transGen hd (.single hlink)
  · have hbelow := rel_of_pairwise_cons hlinked (mem_map_of_mem hf)
    exact hground.not_transGen hd (hbelow.tail hlink)

/-- An action of the machine on grounded definitions. -/
theorem act (h : Descending c s) (hground : Grounded c D) (hD : Domain c D) (hrecord : Record c D ms s)
    (hfollows : Follows c ms) {a : Action} (ha : Enabled c ds s a) : Descending c (s.after c a) := by
  have hlinked := h.linked
  cases ha with
  | next hframes => exact h.openDefinition fun d hd => absurd hd (by simp [hframes])
  | @opening d needed b rest below hframes hneeded =>
    obtain ⟨-, hb, -, -⟩ := hrecord.mem_bodyBoxes hframes
    have hknown := hrecord.dim?_eq_value_of_ready hfollows hframes
    refine h.openDefinition fun d' hd' => ?_
    obtain rfl : d = d' := by simpa [hframes] using hd'
    exact ⟨b, hb, (demands_congr hknown).mp (mem_needs_iff.mp (mem_of_nextNeeded? hneeded).1)⟩
  | preparing hframes =>
    rw [hframes] at hlinked
    rw [after_preparing c hframes]
    exact ⟨h.cycle, h.fault, hlinked⟩
  | @sizing d b rest below hframes hneeded =>
    obtain ⟨hd, hb, -, -⟩ := hrecord.mem_bodyBoxes hframes
    have hdD := hrecord.subset hd
    have hknown := hrecord.dim?_eq_value_of_ready hfollows hframes
    have hkeeps := keeps_sizeBox c s b
    obtain ⟨hframes', -, hfindings', -, hfault'⟩ :=
      enter_eq { (sizeBox c s b).2 with frames := ⟨d, rest⟩ :: below } b (sizeBox c s b).1
    rw [after_sizing c hframes]
    refine ⟨?_, ?_, ?_⟩
    · rw [hfindings']
      refine (hkeeps.cycle h.cycle).mpr ?_
      rintro ⟨-, e, he, hcloses⟩
      have hdemands := (demands_congr hknown).mp (mem_needs_iff.mp he)
      exact h.not_closes hground hD (fun f hf => hrecord.subset (hrecord.framed f hf).1) hframes
        (hD.mem_of_demands hdD hb hdemands) ⟨b, hb, hdemands⟩ hcloses
    · rw [hfault']
      refine (hkeeps.fault h.fault).mpr ?_
      rw [halts_congr hknown]
      exact hground.sound d hdD b hb
    · rw [hframes] at hlinked
      rw [hframes']
      exact hlinked
  | @closing d below hframes =>
    obtain ⟨hframes', -, hfindings', -, hfault'⟩ := Course.frames_closeDefinition s d
    refine ⟨hfindings' ▸ h.cycle, hfault'.trans h.fault, ?_⟩
    rw [hframes] at hframes' hlinked
    rw [State.after, hframes']
    exact hlinked.of_cons

end Descending

theorem History.descending (h : History c ds ms s) (hground : Grounded c D) (hD : Domain c D) (hds : ds ⊆ D) :
    Descending c s := by
  induction h with
  | start => exact ⟨fun f hf => absurd hf not_mem_nil, rfl, List.Pairwise.nil⟩
  | act h _ ha ih =>
    obtain ⟨hfollows, -⟩ := h.follows hD hds ih.cycle ih.fault
    exact ih.act hground hD (h.record hD hds) hfollows ha

/-! ## Programs -/

/-- A program is sized without a cycle, and the machine is not stopped, exactly if its definitions are grounded. -/
theorem grounded_iff (primitives : Primitives) (available : Libraries) (hids : (p.nodes.map (·.mark.id)).Nodup)
    (c : Context) (hc : c = programSizing primitives available p)
    (hvalid : ∀ d ∈ sizedDefinitions c p, ∀ b ∈ bodyBoxes c d, b.invalid = false) :
    Grounded c (sizedDefinitions c p)
      ↔ NoCycle (sizeProgram c p).findings ∧ (sizeProgram c p).fault = none := by
  obtain ⟨hhistory, hends⟩ := sizeProgram_ends primitives available hids c hc
  obtain ⟨hD, hds⟩ := domain_program primitives available hids hc
  constructor
  · intro hground
    have hdescending := hhistory.descending hground hD hds
    exact ⟨hdescending.cycle, hdescending.fault⟩
  · rintro ⟨hcycle, hfault⟩
    obtain ⟨hframes, hdefinitions, -⟩ := hends hfault
    have hrecord := hhistory.record hD hds
    obtain ⟨hopened, hsized⟩ := hrecord.complete hD hframes hdefinitions
    constructor
    · intro d hd
      refine hhistory.accessible hD hds hvalid hcycle hfault hd ((hrecord.mem_done_iff hframes).mpr ?_)
      exact mem_map_of_mem (hopened.mem_iff.mpr hd)
    · intro d hd b hb
      have hmem := hsized.mem_iff.mpr (mem_flatMap.mpr ⟨d, hd, hb⟩)
      exact (hhistory.settles hD hds hvalid hcycle hfault hmem).2

end Patchbay.Sizing
