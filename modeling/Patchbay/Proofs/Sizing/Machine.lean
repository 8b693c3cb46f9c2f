import Patchbay.Proofs.Sizing.History

/-!
# The machine follows the recursion

As long as the machine reports no cycle and is not stopped, every box that it sizes gets the outcome that the recursion
gives: its operands and the definitions it asks for got theirs before. A definition that is done has what its body
gives, by the machine as by the recursion.
-/

open List

namespace Patchbay.Sizing

variable {c : Context} {D ds : List Definition} {s : State} {ms : List Moment}

/-- What the machine found about boxes is what the recursion gives. -/
def Follows (c : Context) (ms : List Moment) : Prop :=
  ∀ m ∈ ms, ∀ b, m.action = .sizing b → ∃ depth, evaluate c depth b = some ⟨(sizeBox c m.state b).1, m.reports c⟩

/-- A depth that is enough for each element of a list is enough for all of them. -/
theorem exists_depth {α : Type} (P : α → Nat → Prop) (hmono : ∀ x n m, n ≤ m → P x n → P x m) {xs : List α}
    (h : ∀ x ∈ xs, ∃ depth, P x depth) : ∃ depth, ∀ x ∈ xs, P x depth := by
  induction xs with
  | nil => exact ⟨0, fun x hx => absurd hx not_mem_nil⟩
  | cons first rest ih =>
    obtain ⟨n, hn⟩ := h first mem_cons_self
    obtain ⟨m, hm⟩ := ih fun x hx => h x (mem_cons_of_mem _ hx)
    refine ⟨max n m, ?_⟩
    intro x hx
    rcases mem_cons.mp hx with rfl | hx
    · exact hmono x n (max n m) (Nat.le_max_left n m) hn
    · exact hmono x m (max n m) (Nat.le_max_right n m) (hm x hx)

/-- The recursion gives sized boxes their dimensions. -/
theorem Record.exists_evaluateDim (h : Record c D ms s) (hfollows : Follows c ms) {b : Box} (hb : b ∈ sizings ms) :
    ∃ depth, evaluateDim c depth b = some (s.dim? b) := by
  obtain ⟨m, hm, hmb⟩ := mem_sizings.mp hb
  obtain ⟨depth, hevaluate⟩ := hfollows m hm b hmb
  refine ⟨depth, ?_⟩
  rw [evaluateDim, hevaluate, h.boxes m hm b hmb]
  rfl

/-- The recursion gives definitions that are done their dimensions. -/
theorem Record.exists_evaluateDefinition (h : Record c D ms s) (hD : Domain c D) (hfollows : Follows c ms)
    {d : Definition} (hd : d ∈ openings ms) (hdone : d.id ∈ s.done) :
    ∃ depth, evaluateDefinition c depth d = some (s.dims.get? d.id) := by
  rw [h.definitions d hd hdone, State.bodyDim?]
  unfold evaluateDefinition definitionRule
  cases hbody : d.validBody? with
  | none => exact ⟨0, rfl⟩
  | some body =>
    obtain ⟨depth, hdepth⟩ := h.exists_evaluateDim hfollows (h.body_mem_sizings hD hd hdone hbody)
    refine ⟨depth, ?_⟩
    dsimp only
    rw [hdepth]
    rfl

/-- What the rule gives for a ready box from what the machine knows, the recursion gives too. -/
theorem Record.exists_evaluate (h : Record c D ms s) (hD : Domain c D) (hfollows : Follows c ms) {d : Definition}
    {b : Box} {rest : List (Box × Bool)} {below : List Frame} (hframes : s.frames = ⟨d, (b, true) :: rest⟩ :: below)
    {outcome : Outcome} (hrule : rule c (knownBox s) (knownDefinition s) b = some outcome) :
    ∃ depth, evaluate c depth b = some outcome := by
  obtain ⟨hd, hb, -, hoperands⟩ := h.mem_bodyBoxes hframes
  obtain ⟨n, hn⟩ := exists_depth (fun x n => evaluateDim c n x = some (s.dim? x))
    (fun _ _ _ hle => evaluateDim_mono hle) fun x hx => h.exists_evaluateDim hfollows (hoperands x hx)
  -- The definition that the box refers to, if it is done.
  have hdefinition : ∃ m, ∀ e ∈ (Delay.referred? c.resolution b).toList, ∀ v, knownDefinition s e = some v →
      evaluateDefinition c m e = some v := by
    refine exists_depth (fun e m => ∀ v, knownDefinition s e = some v → evaluateDefinition c m e = some v)
      (fun _ _ _ hle h v hv => evaluateDefinition_mono hle (h v hv)) fun e he => ?_
    have heD := hD.referred d (h.subset hd) b hb e (Option.mem_toList.mp he)
    unfold knownDefinition
    split
    · rename_i hdone
      have hopened := mem_reverse.mp ((h.mem_opened_iff hD heD).mpr (.inl hdone))
      obtain ⟨m, hm⟩ := h.exists_evaluateDefinition hD hfollows hopened (by simpa [State.isDone] using hdone)
      exact ⟨m, fun v hv => hm.trans hv⟩
    · exact ⟨0, fun v hv => absurd hv (by simp)⟩
  obtain ⟨m, hm⟩ := hdefinition
  refine ⟨max n m + 1, ?_⟩
  rw [evaluate]
  refine rule_mono ?_ ?_ hrule
  · intro x hx v hv
    obtain rfl : s.dim? x = v := Option.some.inj hv
    exact evaluateDim_mono (Nat.le_max_left n m) (hn x hx)
  · intro e he v hv
    exact evaluateDefinition_mono (Nat.le_max_right n m) (hm e (Option.mem_toList.mpr he) v hv)

/-- An action leaves the definitions known to be free of delays as they are, unless it sizes a box. -/
theorem delayFree_after {a : Action} (ha : a.sized? = none) : (s.after c a).delayFree = s.delayFree := by
  cases a with
  | opening d => exact (openDefinition_eq s d).2.2.2
  | preparing b => rfl
  | sizing b => simp [Action.sized?] at ha
  | closing d => exact (Course.frames_closeDefinition s d).2.2.2.1

/-- As long as no cycle was reported and the machine was not stopped, it follows the recursion. -/
theorem History.follows (h : History c ds ms s) (hD : Domain c D) (hds : ds ⊆ D) (hcycle : NoCycle s.findings)
    (hfault : s.fault = none) : Follows c ms ∧ Delay.Free c.resolution s.delayFree := by
  induction h with
  | start =>
    exact ⟨fun m hm => absurd hm not_mem_nil, fun _ _ _ _ _ hmem => absurd hmem not_mem_nil⟩
  | @act ms s a h hrunning ha ih =>
    have hfindings : s.findings ⊆ (s.after c a).findings := findings_after c s a ▸ subset_append_left _ _
    obtain ⟨hfollows, hfree⟩ := ih (hcycle.of_subset hfindings) hrunning
    -- The moments before follow the recursion, so only the last one is left.
    have hconcat (hlast : ∀ b, a = .sizing b →
        ∃ depth, evaluate c depth b = some ⟨(sizeBox c s b).1, (⟨s, a⟩ : Moment).reports c⟩) :
        Follows c (ms ++ [⟨s, a⟩]) := by
      intro m hm
      rcases mem_append.mp hm with hm | hm
      · exact hfollows m hm
      · obtain rfl := mem_singleton.mp hm
        exact hlast
    cases hsized : a.sized? with
    | none =>
      refine ⟨hconcat fun b hb => ?_, by rw [delayFree_after hsized]; exact hfree⟩
      rw [hb] at hsized
      simp [Action.sized?] at hsized
    | some b =>
      cases ha with
      | next | opening | preparing | closing => simp [Action.sized?] at hsized
      | @sizing d b' rest below hframes hneeded =>
        obtain rfl : b' = b := Option.some.inj hsized
        obtain ⟨-, -, hfindings', hfree', hfault'⟩ :=
          enter_eq { (sizeBox c s b').2 with frames := ⟨d, rest⟩ :: below } b' (sizeBox c s b').1
        rw [after_sizing c hframes] at hcycle hfault ⊢
        rw [hfindings'] at hcycle
        rw [hfault'] at hfault
        obtain ⟨outcome, hrule, hdim, hadds, hright⟩ := sizeBox_spec hD.coherent hfree hneeded hcycle hfault
        refine ⟨hconcat fun b hb => ?_, hfree' ▸ hright⟩
        obtain rfl : b' = b := Action.sizing.inj hb
        rw [Moment.reports, Moment.after, findings_after_sizing, hadds, drop_left, hdim]
        exact (h.record hD hds).exists_evaluate hD hfollows hframes hrule

end Patchbay.Sizing
