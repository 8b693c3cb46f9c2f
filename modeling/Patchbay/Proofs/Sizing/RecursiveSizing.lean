import Patchbay.Proofs.Sizing.Machine

/-!
# Sizing is evaluation by recursion

The machine sizes the definitions of a program one after another. If it reports no cycle, the dimensions it enters are
those that the recursion gives, for every node that is sized, and its findings are those that the recursion emits.
-/

open List

namespace Patchbay

namespace Sizing

variable {c : Context} {D : List Definition} {ms : List Moment} {s : State} {p : Program}

/-! ## The end of sizing -/

/-- When no frame is left, the definitions that are done are those that were opened. -/
theorem Record.mem_done_iff (h : Record c D ms s) (hframes : s.frames = []) {id : Nat} :
    id ∈ s.done ↔ id ∈ (openings ms).map (·.id) := by
  have hstatus := h.status.mem_iff (a := id)
  rw [hframes, map_nil, append_nil, map_reverse, mem_reverse] at hstatus
  exact hstatus.symm

/-- At the end all sized definitions were opened and all sized boxes were sized. -/
theorem Record.complete (h : Record c (sizedDefinitions c p) ms s) (hD : Domain c (sizedDefinitions c p))
    (hframes : s.frames = []) (hdefinitions : p.definitions ⊆ openings ms) :
    (openings ms).Perm (sizedDefinitions c p) ∧ (sizings ms).Perm (sizedBoxes c p) := by
  have haccount := h.account
  rw [hframes, flatMap_nil, append_nil] at haccount
  -- Boxes of opened definitions are settled, and local definitions of settled blocks are opened: nothing is left.
  have hclosed : Closed c (· ∈ (openings ms).reverse) (· ∈ sizings ms) := by
    constructor
    · intro d hd b hb
      exact haccount.mem_iff.mpr (mem_flatMap.mpr ⟨d, hd, hb⟩)
    · intro mark body locals hmem d hd
      exact h.locals mark body locals hmem hd
  have hall : sizedDefinitions c p ⊆ (openings ms).reverse :=
    definitionsOfAll_of_closed hclosed p.definitions fun _ hd => mem_reverse.mpr (hdefinitions hd)
  have hnodup : (sizedDefinitions c p).Nodup := (List.nodup_append.mp hD.nodup_append).1.of_map
  have hopened := (perm_ext_iff_of_nodup h.nodup hnodup).mpr fun _ => ⟨fun hd => h.subset hd, fun hd => hall hd⟩
  exact ⟨(reverse_perm _).symm.trans hopened, haccount.trans (hopened.flatMap_right (bodyBoxes c))⟩

/-- At one depth, and at every greater one, the recursion gives what the machine found about all sized boxes and the
dimensions of all definitions. -/
theorem Record.exists_depth (h : Record c D ms s) (hD : Domain c D) (hfollows : Follows c ms)
    (hframes : s.frames = []) :
    ∃ depth, ∀ n, depth ≤ n →
      (∀ m ∈ ms, ∀ b, m.action = .sizing b → evaluate c n b = some ⟨s.dim? b, m.reports c⟩)
      ∧ ∀ d ∈ openings ms, evaluateDefinition c n d = some (s.dims.get? d.id) := by
  have hmoment : ∀ m ∈ ms, ∃ n, ∀ b, m.action = .sizing b → evaluate c n b = some ⟨s.dim? b, m.reports c⟩ := by
    intro m hm
    cases haction : m.action with
    | sizing b =>
      obtain ⟨depth, hdepth⟩ := hfollows m hm b haction
      refine ⟨depth, ?_⟩
      rintro _ ⟨⟩
      rw [hdepth, h.boxes m hm b haction]
    | opening | preparing | closing => exact ⟨0, fun b hb => absurd hb (by simp)⟩
  obtain ⟨m, hm⟩ := Sizing.exists_depth _ (fun _ _ _ hle h b hb => evaluate_mono hle (h b hb)) hmoment
  obtain ⟨k, hk⟩ := Sizing.exists_depth (fun d n => evaluateDefinition c n d = some (s.dims.get? d.id))
    (fun _ _ _ hle => evaluateDefinition_mono hle) fun d hd =>
      h.exists_evaluateDefinition hD hfollows hd ((h.mem_done_iff hframes).mpr (mem_map_of_mem hd))
  refine ⟨max m k, fun n hn => ⟨fun m hm' b hb => ?_, fun d hd => ?_⟩⟩
  · exact evaluate_mono (by omega) (hm m hm' b hb)
  · exact evaluateDefinition_mono (by omega) (hk d hd)

/-- At every depth that is great enough the recursion gives the dimensions of a program that is sized without a cycle,
and what is reported about its boxes, if the machine is not stopped. -/
theorem sizeProgram_evaluate (primitives : Primitives) (available : Libraries)
    (hids : (p.nodes.map (·.mark.id)).Nodup) (c : Context) (hc : c = programSizing primitives available p)
    (hcycle : NoCycle (sizeProgram c p).findings) (hfault : (sizeProgram c p).fault = none) :
    ∃ depth, ∀ n, depth ≤ n →
      (∀ b ∈ sizedBoxes c p, evaluateDim c n b = some ((sizeProgram c p).dims.get? b.id))
      ∧ (∀ d ∈ sizedDefinitions c p, evaluateDefinition c n d = some ((sizeProgram c p).dims.get? d.id))
      ∧ (∀ id, id ∉ (sizedBoxes c p).map Box.id → id ∉ (sizedDefinitions c p).map (·.id) →
        (sizeProgram c p).dims.get? id = none)
      ∧ (sizeProgram c p).findings.Perm ((sizedBoxes c p).flatMap (emitted c n)) := by
  obtain ⟨hD, hds⟩ := domain_program primitives available hids hc
  obtain ⟨hhistory, hends⟩ := sizeProgram_ends primitives available hids c hc
  have hrecord := hhistory.record hD hds
  obtain ⟨hframes, hdefinitions, -⟩ := hends hfault
  obtain ⟨hfollows, -⟩ := hhistory.follows hD hds hcycle hfault
  obtain ⟨hopened, hsized⟩ := hrecord.complete hD hframes hdefinitions
  obtain ⟨depth, hdepth⟩ := hrecord.exists_depth hD hfollows hframes
  refine ⟨depth, ?_⟩
  intro n hn
  obtain ⟨hboxes, hdefinitions⟩ := hdepth n hn
  refine ⟨?_, ?_, ?_, ?_⟩
  · intro b hb
    obtain ⟨m, hm, hmb⟩ := mem_sizings.mp (hsized.mem_iff.mpr hb)
    rw [evaluateDim, hboxes m hm b hmb]
    rfl
  · intro d hd
    exact hdefinitions d (hopened.mem_iff.mpr hd)
  · intro id hbox hdefinition
    refine hrecord.others id (fun hmem => hbox ((hsized.map _).mem_iff.mp hmem)) fun hdone => ?_
    exact hdefinition ((hopened.map _).mem_iff.mp ((hrecord.mem_done_iff hframes).mp hdone))
  · -- What was found at each box is what the recursion emits there; only the order of the boxes differs.
    rw [hhistory.findings, flatMap_reports (emitted c n) ?_]
    · exact hsized.flatMap_right _
    · intro m hm b hb
      rw [emitted, hboxes m hm b hb]

end Sizing

open Sizing in
/-- A program whose nodes have different numbers is sized as the recursion evaluates it, if no cycle is reported. At
every depth that is great enough the recursion gives each sized box and definition the dimension entered for it, or
that it has none; nothing else has a dimension; and the findings are, in some order, those the recursion emits. -/
theorem Program.dimensions_evaluate (primitives : Primitives) (available : Libraries) (p : Program)
    (hids : (p.nodes.map (·.mark.id)).Nodup) (s : Sizing.State)
    (hs : p.dimensions (p.resolve primitives available).1 primitives = .ok s)
    (hcycle : NoCycle s.findings) :
    ∃ depth, ∀ n, depth ≤ n →
      (∀ b ∈ sizedBoxes (programSizing primitives available p) p,
        evaluateDim (programSizing primitives available p) n b = some (s.dims.get? b.id))
      ∧ (∀ d ∈ sizedDefinitions (programSizing primitives available p) p,
        evaluateDefinition (programSizing primitives available p) n d = some (s.dims.get? d.id))
      ∧ (∀ id, id ∉ (sizedBoxes (programSizing primitives available p) p).map Box.id →
        id ∉ (sizedDefinitions (programSizing primitives available p) p).map (·.id) → s.dims.get? id = none)
      ∧ s.findings.Perm ((sizedBoxes (programSizing primitives available p) p).flatMap
          (emitted (programSizing primitives available p) n)) := by
  obtain ⟨hsize, hfault, -⟩ := dimensions_eq_ok_iff.mp hs
  change sizeProgram (programSizing primitives available p) p = s at hsize
  subst hsize
  exact sizeProgram_evaluate primitives available hids _ rfl hcycle hfault

/-- The program `process = (f, 3) : (+ ~ _); f(x) = (x, y) : + with { y = 2; };`. -/
def forward : Program where
  imports := []
  declarations := []
  definitions :=
    [⟨markAt 1, "process", [],
        some (.compose (markAt 2) .seq
          (.compose (markAt 3) .par (.ref (markAt 4) "f") (.number (markAt 5) (.finite false 3) "3"))
          (.compose (markAt 6) .recur (.ref (markAt 7) "+") (.ref (markAt 8) "_"))),
        .start⟩,
      ⟨markAt 9, "f", ["x"],
        some (.block (markAt 10)
          (.compose (markAt 11) .seq
            (.compose (markAt 12) .par (.ref (markAt 13) "x") (.ref (markAt 14) "y")) (.ref (markAt 15) "+"))
          [⟨markAt 16, "y", [], some (.number (markAt 17) (.finite false 2) "2"), .start⟩]),
        .start⟩]

open Sizing in
/-- In `forward` the definition `f` is needed before it is reached. It takes a signal to a signal, and both mistakes in
`process` are reported: a feedback without a delay, and two signals that meet one input. -/
theorem Program.dimensions_evaluate_forward :
    (forward.nodes.map (·.mark.id)).Nodup
    ∧ ∃ s, forward.dimensions (forward.resolve standardPrimitives .empty).1 standardPrimitives = .ok s
      ∧ NoCycle s.findings
      ∧ ∃ depth, ∀ n, depth ≤ n →
        (∀ d ∈ forward.definitions, evaluateDefinition (programSizing standardPrimitives .empty forward) n d
          = some (if d.name = "f" then some ⟨1, 1⟩ else none))
        ∧ [⟨⟨1, 6⟩, .feedbackWithoutDelay⟩, ⟨⟨1, 2⟩, .badComposition .seq ⟨1, 2⟩ ⟨1, 1⟩⟩].Perm
          ((sizedBoxes (programSizing standardPrimitives .empty forward) forward).flatMap
            (emitted (programSizing standardPrimitives .empty forward) n)) := by
  have hids : (forward.nodes.map (·.mark.id)).Nodup := by decide +kernel
  have hfindings : (sizeProgram (programSizing standardPrimitives .empty forward) forward).findings
      = [⟨⟨1, 6⟩, .feedbackWithoutDelay⟩, ⟨⟨1, 2⟩, .badComposition .seq ⟨1, 2⟩ ⟨1, 1⟩⟩] := by
    decide +kernel
  have hs := dimensions_eq_ok_iff.mpr ⟨rfl,
    (by decide +kernel : (sizeProgram (programSizing standardPrimitives .empty forward) forward).fault = none),
    by decide +kernel⟩
  have hcycle : NoCycle (sizeProgram (programSizing standardPrimitives .empty forward) forward).findings := by
    rw [hfindings]
    intro f hf
    rcases mem_pair.mp hf with rfl | rfl <;> simp
  refine ⟨hids, _, hs, hcycle, ?_⟩
  obtain ⟨depth, hdepth⟩ := Program.dimensions_evaluate standardPrimitives .empty forward hids _ hs hcycle
  refine ⟨depth, ?_⟩
  intro n hn
  obtain ⟨-, hdefinitions, -, hperm⟩ := hdepth n hn
  rw [← hfindings]
  refine ⟨?_, hperm⟩
  intro d hd
  rw [hdefinitions d (subset_definitionsOfAll _ hd)]
  rcases mem_pair.mp hd with rfl | rfl <;> decide +kernel

/-- The program `process = button(foo, bar);`. -/
def misused : Program where
  imports := []
  declarations := []
  definitions :=
    [⟨markAt 1, "process", [],
      some (.call (markAt 2) "button" [.ref (markAt 3) "foo", .ref (markAt 4) "bar"]), .start⟩]

open Sizing in
/-- The number of arguments of a user-interface box is checked whatever the arguments are: in `misused` none of them has
a dimension, and a mistake is reported all the same. So not every finding apart from feedback without a delay is
about a box whose operands are known. -/
theorem Program.dimensions_unknown_operands :
    (misused.nodes.map (·.mark.id)).Nodup
    ∧ ∃ s, misused.dimensions (misused.resolve standardPrimitives .empty).1 standardPrimitives = .ok s
      ∧ NoCycle s.findings
      ∧ ¬ ∀ f ∈ s.findings, f.issue ≠ .feedbackWithoutDelay →
        ∃ b ∈ sizedBoxes (programSizing standardPrimitives .empty misused) misused, b.position = f.position
          ∧ ∀ x ∈ operands (programSizing standardPrimitives .empty misused) b, (s.dim? x).isSome = true := by
  have hfindings : (sizeProgram (programSizing standardPrimitives .empty misused) misused).findings
      = [⟨⟨1, 2⟩, .argumentCount "button" 1 2⟩] := by
    decide +kernel
  have hs := dimensions_eq_ok_iff.mpr ⟨rfl,
    (by decide +kernel : (sizeProgram (programSizing standardPrimitives .empty misused) misused).fault = none),
    by decide +kernel⟩
  refine ⟨by decide +kernel, _, hs, ?_, ?_⟩
  · change NoCycle (sizeProgram (programSizing standardPrimitives .empty misused) misused).findings
    rw [hfindings]
    intro f hf
    rw [mem_singleton.mp hf]
    simp
  · decide +kernel

end Patchbay
