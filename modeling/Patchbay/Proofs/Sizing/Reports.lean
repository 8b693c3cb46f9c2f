import Patchbay.Proofs.Sizing.Compute

/-!
# What sizing a box reports

Sizing a box reports at most one thing about it, at its own place: that its dimensions do not fit, that a feedback has
no delay, or that what it refers to is being sized. In the first and in the last case the box gets no dimension. Only a
block could report more, a cycle for each of its local definitions that is being sized.
-/

namespace Patchbay.Sizing

variable {c : Context} {s : State} {b : Box}

/-- The finding of a cycle that is closed by asking for a definition. -/
def State.cycleFinding (s : State) (e : Definition) (position : Position) : Finding :=
  ⟨position, .circularDefinition ((s.cycleFrom e).map (·.name)) e.position⟩

/-- What is found about a box and what is reported about it. -/
inductive Report (c : Context) (s : State) (b : Box) : Option Dimension → List Finding → Prop where
  | silent (dim : Option Dimension) : Report c s b dim []
  | mistake {issue : Issue} (hkind : issue.kind = .dimension) (hnamed : ∀ name ∈ issue.named?, name ∈ b.name?) :
      Report c s b none [⟨b.position, issue⟩]
  | feedback (dim : Dimension) : Report c s b (some dim) [⟨b.position, .feedbackWithoutDelay⟩]
  | cycle {e : Definition} (hreferred : Delay.referred? c.resolution b = some e) (hcloses : s.Closes e) :
      Report c s b none [s.cycleFinding e b.position]
  | localCycles {mark : Mark} {body : Box} {locals : List Definition} {new : List Finding}
      (hblock : b = .block mark body locals) (dim : Option Dimension)
      (hnew : ∀ f ∈ new, ∃ e ∈ locals, s.Closes e ∧ f = s.cycleFinding e e.position) : Report c s b dim new

/-- The result of sizing a box is a report about it. -/
def Reports (c : Context) (s : State) (b : Box) (result : Option Dimension × State) : Prop :=
  ∃ new, result.2.findings = s.findings ++ new ∧ Report c s b result.1 new

/-- Asking for local definitions reports a cycle for each of them that is being sized. -/
theorem findings_askLocals (locals : List Definition) (s : State) :
    ∃ new, (askLocals locals s).findings = s.findings ++ new
      ∧ ∀ f ∈ new, ∃ e ∈ locals, s.Closes e ∧ f = s.cycleFinding e e.position := by
  induction locals generalizing s with
  | nil => exact ⟨[], (List.append_nil _).symm, fun f hf => absurd hf List.not_mem_nil⟩
  | cons d rest ih =>
    have hunfold : askLocals (d :: rest) s = askLocals rest (s.askDefinition d d.position).2 := rfl
    rw [hunfold]
    unfold State.askDefinition
    have hweaken {new : List Finding} (h : ∀ f ∈ new, ∃ e ∈ rest, s.Closes e ∧ f = s.cycleFinding e e.position) :
        ∀ f ∈ new, ∃ e ∈ d :: rest, s.Closes e ∧ f = s.cycleFinding e e.position := by
      intro f hf
      obtain ⟨e, he, hcloses⟩ := h f hf
      exact ⟨e, List.mem_cons_of_mem _ he, hcloses⟩
    split
    · obtain ⟨new, hfindings, hnew⟩ := ih s
      exact ⟨new, hfindings, hweaken hnew⟩
    · rename_i hdone
      split
      · rename_i hactive
        -- A finding changes neither what is done nor the frames, so the others are asked as before.
        obtain ⟨new, hfindings, hnew⟩ := ih (s.reportCycle d d.position)
        refine ⟨s.cycleFinding d d.position :: new, ?_, ?_⟩
        · rw [hfindings, State.reportCycle, State.report, List.append_assoc]
          rfl
        · intro f hf
          rcases List.mem_cons.mp hf with rfl | hf
          · exact ⟨d, List.mem_cons_self, ⟨by simpa using hdone, hactive⟩, rfl⟩
          · exact hweaken hnew f hf
      · obtain ⟨new, hfindings, hnew⟩ := ih s
        exact ⟨new, hfindings, hweaken hnew⟩

/-- What sizing a box gives is a report about it. -/
theorem reports_sizeBox (c : Context) (s : State) (b : Box) : Reports c s b (sizeBox c s b) := by
  have hsilent {dim : Option Dimension} {s' : State} (h : s'.findings = s.findings) : Reports c s b (dim, s') :=
    ⟨[], h.trans (List.append_nil _).symm, .silent dim⟩
  have hsizes := sizes_sizeBox c s b
  generalize sizeBox c s b = result at hsizes
  cases hsizes with
  | silent | stop => exact hsilent rfl
  | mistake _ _ _ hkind hnamed => exact ⟨_, rfl, .mistake hkind hnamed⟩
  | scan =>
    split
    · exact hsilent rfl
    · exact ⟨_, rfl, .feedback _⟩
  | cycle _ hreferred _ hcloses => exact ⟨_, rfl, .cycle hreferred hcloses⟩
  | @locals _ _ locals _ hb =>
    obtain ⟨new, hfindings, hnew⟩ := findings_askLocals locals s
    exact ⟨new, hfindings, .localCycles hb _ hnew⟩

end Patchbay.Sizing
