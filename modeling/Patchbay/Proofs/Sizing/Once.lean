import Patchbay.Proofs.Analysis.Returning

/-!
# Everything is sized once

The machine comes to an end on its own, and does nothing twice on the way there: no definition is opened again, no box
is sized again, and no dimension is entered where there is one. Cycles make no difference.

When the machine sizes a box, the definitions that the box asks for are done or being sized. So it does not matter what
an answer about another definition would be, and none of them has to be sized in the middle of sizing a box.
-/

open List

namespace Patchbay

namespace Sizing

variable {c : Context} {D ds : List Definition} {ms : List Moment} {s : State} {p : Program} {fuel fuel' : Nat}

/-! ## The end -/

/-- The machine has come to an end: no frame is left, or it is stopped. -/
def State.ended (s : State) : Bool := s.frames.isEmpty || s.fault.isSome

theorem run_of_ended (c : Context) (h : s.ended) (fuel : Nat) : run c fuel s = s := by
  cases fuel with
  | zero => rfl
  | succ fuel => exact if_pos h

/-- A run that came to an end is the same with more fuel. -/
theorem run_of_le (hle : fuel ≤ fuel') (h : (run c fuel s).ended) : run c fuel' s = run c fuel s := by
  induction fuel generalizing s fuel' with
  | zero => exact run_of_ended c h fuel'
  | succ fuel ih =>
    obtain ⟨more, rfl⟩ : ∃ more, fuel' = more + 1 := ⟨fuel' - 1, by omega⟩
    rw [run] at h ⊢
    rw [run]
    split
    · rfl
    · rename_i hgo
      rw [if_neg hgo] at h
      exact ih (by omega) h

section

variable (hD : Domain c D) (hds : ds ⊆ D) (hfuel : 2 * (D.flatMap (numbers c)).length < fuel) (hle : fuel ≤ fuel')

include hD hds hfuel hle

/-- More fuel does not change how a definition is sized. -/
theorem History.sizeDefinition_of_le (h : History c ds ms s) {d : Definition} (hd : d ∈ ds)
    (hframes : s.fault = none → s.frames = []) :
    Sizing.sizeDefinition c fuel' s d = Sizing.sizeDefinition c fuel s d := by
  unfold Sizing.sizeDefinition
  split
  · rfl
  · rename_i hgo
    rw [Bool.or_eq_true, not_or] at hgo
    have hfault : s.fault = none := by simpa using hgo.2
    have hdone : s.isDone d = false := by simpa using hgo.1
    refine run_of_le hle ?_
    rw [State.ended, Bool.or_eq_true]
    cases hstopped : (Sizing.run c fuel (s.openDefinition d)).fault with
    | some fault => exact .inr rfl
    | none =>
      have hopened := h.act hfault (.next (hframes hfault) hd hdone)
      exact .inl (List.isEmpty_iff.mpr (hopened.frames_run hD hds hfuel hstopped))

theorem History.foldl_of_le (h : History c ds ms s) {es : List Definition} (hes : es ⊆ ds)
    (hframes : s.fault = none → s.frames = []) :
    es.foldl (Sizing.sizeDefinition c fuel') s = es.foldl (Sizing.sizeDefinition c fuel) s := by
  induction es generalizing ms s with
  | nil => rfl
  | cons d rest ih =>
    rw [cons_subset] at hes
    rw [foldl_cons, foldl_cons, h.sizeDefinition_of_le hD hds hfuel hle hes.1 hframes]
    exact ih (h.sizeDefinition fuel hes.1 hframes) hes.2 (h.frames_sizeDefinition hD hds hfuel hes.1 hframes)

end

/-! ## Answers about definitions -/

section

variable (answer : State → Definition → Position → Option Dimension × State)

/-- The dimension of what a name stands for, given answers about definitions. -/
def sizeReferenceWith (c : Context) (s : State) (mark : Mark) : Option Dimension × State :=
  match c.resolution.symbol? mark.id with
  | none => (none, s)
  | some symbol =>
    match symbol.kind, symbol.definition with
    | .userDefined, some d => answer s d mark.position
    | .parameter, _ => (some .signal, s)
    | _, _ => (symbol.arity, s)

/-- The dimension of an ordinary call, given answers about definitions. -/
def sizeCallWith (c : Context) (s : State) (mark : Mark) (name : String) (args : List Box) :
    Option Dimension × State :=
  match args.mapM s.dim? with
  | none => (none, s)
  | some dims =>
    match sizeReferenceWith answer c s mark with
    | (none, s) => (none, s)
    | (some callee, s) =>
      match callDimension callee dims with
      | some result => (some result, s)
      | none =>
        let supplied := Dimension.total (·.outputs) dims
        (none, s.report mark.position (.tooManySignals name callee.inputs supplied))

/-- Asks for the local definitions of a block. -/
def askLocalsWith (locals : List Definition) (s : State) : State :=
  locals.foldl (fun s d => (answer s d d.position).2) s

/-- The dimension of a box, given answers about definitions. -/
def sizeBoxWith (c : Context) (s : State) (b : Box) : Option Dimension × State :=
  if b.invalid then (none, s)
  else
    match b with
    | .number _ _ _ => (some .signal, s)
    | .string _ _ => (some .signal, s)
    | .ref mark _ => sizeReferenceWith answer c s mark
    | .compose mark op left right => sizeComposition c s mark op left right
    | .block _ body locals =>
      let s := askLocalsWith answer locals s
      (s.dim? body, s)
    | .call mark name args =>
      match c.resolution.symbol? mark.id with
      | none => (none, s)
      | some symbol =>
        match iterationParts? c mark.id name args with
        | some (count, body) => sizeIteration c s mark name count body
        | none =>
          if symbol.kind = .ui then sizeUiCall c s mark name args
          else if symbol.kind = .parameter then (none, s)
          else sizeCallWith answer c s mark name args

/-- Sizing a box is sizing it with the answers of the machine. -/
theorem sizeBoxWith_askDefinition (c : Context) (s : State) (b : Box) :
    sizeBoxWith State.askDefinition c s b = sizeBox c s b := rfl

/-- Answers that are those of the machine about definitions that are done or being sized. -/
def Answers : Prop :=
  ∀ (s : State) (d : Definition) (position : Position), s.isDone d = true ∨ s.isActive d = true →
    answer s d position = s.askDefinition d position

variable {answer}

theorem sizeReferenceWith_eq (h : Answers answer) {mark : Mark}
    (hneeds : ∀ d, c.resolution.userDefinition? mark.id = some d → s.isDone d ∨ s.isActive d) :
    sizeReferenceWith answer c s mark = sizeReference c s mark := by
  unfold sizeReferenceWith sizeReference
  cases hsymbol : c.resolution.symbol? mark.id with
  | none => rfl
  | some symbol =>
    dsimp only
    cases hkind : symbol.kind with
    | userDefined =>
      cases hd : symbol.definition with
      | none => rfl
      | some d => exact h s d mark.position (hneeds d (by simp [Resolution.userDefinition?, hsymbol, hkind, hd]))
    | primitive | imported | parameter | ui => rfl

theorem askLocalsWith_eq (c : Context) (h : Answers answer) {locals : List Definition}
    (hneeds : ∀ d ∈ locals, s.isDone d ∨ s.isActive d) :
    askLocalsWith answer locals s = askLocals locals s := by
  induction locals generalizing s with
  | nil => rfl
  | cons d rest ih =>
    have hkeeps := keeps_askDefinition c s d d.position
    have hfirst := h s d d.position (hneeds d mem_cons_self)
    change askLocalsWith answer rest (answer s d d.position).2 = askLocals rest (s.askDefinition d d.position).2
    rw [hfirst]
    -- Asking for a definition does not change which ones are done or being sized.
    refine ih fun e he => ?_
    rw [State.isDone, State.isActive, hkeeps.done, hkeeps.frames]
    exact hneeds e (mem_cons_of_mem _ he)

/-- A box that is about to be sized asks only for definitions that are done or being sized. -/
theorem sizeBoxWith_eq (h : Answers answer) {b : Box} (hneeded : nextNeeded? c s b = none) :
    sizeBoxWith answer c s b = sizeBox c s b := by
  rw [← sizeBoxWith_askDefinition]
  unfold sizeBoxWith
  split
  · rfl
  · cases b with
    | number | string | compose => rfl
    | ref mark name =>
      refine sizeReferenceWith_eq h fun d hd => ?_
      exact done_or_active_of_nextNeeded? hneeded (by simp [needs, hd])
    | block mark body locals =>
      have hneeds : ∀ d ∈ locals, s.isDone d ∨ s.isActive d :=
        fun d hd => done_or_active_of_nextNeeded? hneeded hd
      dsimp only
      rw [askLocalsWith_eq c h hneeds]
      rfl
    | call mark name args =>
      -- The head is asked for when all arguments have a dimension, and then the call needs it.
      have hcall : sizeCallWith answer c s mark name args = sizeCall c s mark name args := by
        unfold sizeCallWith sizeCall
        cases hdims : args.mapM s.dim? with
        | none => rfl
        | some dims =>
          have hneeds : ∀ d, c.resolution.userDefinition? mark.id = some d →
              s.isDone d ∨ s.isActive d :=
            fun d hd => done_or_active_of_nextNeeded? hneeded (mem_needs_iff.mpr ⟨isSome_of_mapM hdims, hd⟩)
          rewrite [sizeReferenceWith_eq h hneeds]
          rfl
      dsimp only
      rewrite [hcall]
      rfl

end

/-! ## Programs -/

/-- A program is sized to an end, and everything in it at most once. -/
structure SizedOnce (c : Context) (p : Program) : Prop where
  /-- The moments are those of the machine: each action is enabled in the state that the one before led to. -/
  followed : History c p.definitions (history c p) (sizeProgram c p)
  /-- The machine ends on its own. -/
  ended : (sizeProgram c p).ended = true
  fueled : ∀ fuel, fuelFor p ≤ fuel → p.definitions.foldl (sizeDefinition c fuel) .start = sizeProgram c p
  bounded : (history c p).length ≤ 2 * p.nodes.length
  opened : ((openings (history c p)).map (·.id)).Nodup
  sized : ((sizings (history c p)).map Box.id).Nodup
  /-- A dimension is entered only where there is none. -/
  entered : ∀ m ∈ history c p, ∀ id, m.action.entered? c m.state = some id → m.state.dims.get? id = none
  /-- All other dimensions stay as they are. -/
  unchanged : ∀ m ∈ history c p, ∀ id, m.action.entered? c m.state ≠ some id →
    (m.after c).dims.get? id = m.state.dims.get? id
  kept : ∀ m ∈ history c p, ∀ id v, m.state.dims.get? id = some v → (sizeProgram c p).dims.get? id = some v
  /-- Sizing a box depends on no answer about a definition that is neither done nor being sized. -/
  unnested : ∀ m ∈ history c p, ∀ b, m.action = .sizing b → ∀ answer, Answers answer →
    sizeBoxWith answer c m.state b = sizeBox c m.state b

theorem sizedOnce (primitives : Primitives) (available : Libraries) (hids : (p.nodes.map (·.mark.id)).Nodup)
    (hc : c = programSizing primitives available p) : SizedOnce c p := by
  obtain ⟨hD, hds⟩ := domain_program primitives available hids hc
  have hfuel := numbers_lt_fuelFor c p
  obtain ⟨hhistory, hends⟩ := sizeProgram_ends primitives available hids c hc
  obtain ⟨hcourse, hlength⟩ := hhistory.course hD hds
  have hrecord := hhistory.record hD hds
  refine ⟨hhistory, ?_, ?_, ?_, ?_, ?_, ?_, ?_, hrecord.kept, ?_⟩
  · rw [State.ended, Bool.or_eq_true]
    cases hfault : (sizeProgram c p).fault with
    | some fault => exact .inr rfl
    | none => exact .inl (List.isEmpty_iff.mpr (hends hfault).1)
  · intro fuel hle
    exact History.start.foldl_of_le hD hds hfuel hle (List.Subset.refl _) fun _ => rfl
  · have hprogress := hcourse.progress_le
    unfold fuelFor at hfuel
    omega
  · refine Nodup.map_on ?_ (nodup_reverse.mp hcourse.nodup)
    intro d hd e he
    exact hD.definition_eq (hrecord.mem_opened hd) (hrecord.mem_opened he)
  · have hnodup := hcourse.nodup_account hD
    rw [map_append] at hnodup
    exact (List.nodup_append.mp hnodup).1
  · intro m hm id hid
    obtain ⟨before, -, hbefore, -, ha⟩ := hhistory.exists_of_mem hm
    exact (hbefore.record hD hds).unknown_of_entered hD ha hid
  · exact fun m _ id hid => get?_after hid
  · intro m hm b hb answer hanswer
    obtain ⟨-, -, -, -, ha⟩ := hhistory.exists_of_mem hm
    rw [hb] at ha
    cases ha with
    | sizing hframes hneeded => exact sizeBoxWith_eq hanswer hneeded

end Sizing

open Sizing in
/-- A program whose nodes have different numbers is sized to an end, and everything in it at most once, whatever cycles
there are. Where the program has dimensions no definition is being sized in the end and all its own ones are done. It
has dimensions if its numbers are finite and the findings can be written. -/
theorem Program.sized_once (available : Libraries) (p : Program) (hids : (p.nodes.map (·.mark.id)).Nodup) :
    SizedOnce (programSizing standardPrimitives available p) p
    ∧ (∀ s, p.dimensions (p.resolve standardPrimitives available).1 standardPrimitives = .ok s →
      s = p.sized available ∧ s.frames = [] ∧ ∀ d ∈ p.definitions, s.isDone d = true)
    ∧ ((∀ mark value text, Node.box (.number mark value text) ∈ p.nodes → value.isFinite = true) →
      (∀ f ∈ (p.sized available).findings, f.issue.isWritable = true) →
      ∃ s, p.dimensions (p.resolve standardPrimitives available).1 standardPrimitives = .ok s) := by
  refine ⟨sizedOnce standardPrimitives available hids rfl, ?_, ?_⟩
  · intro s hs
    obtain ⟨rfl, hfault, -⟩ := dimensions_eq_ok_iff.mp hs
    obtain ⟨-, hends⟩ := sizeProgram_ends standardPrimitives available hids _ rfl
    obtain ⟨hframes, -, hdone⟩ := hends hfault
    exact ⟨rfl, hframes, hdone⟩
  · exact fun hfinite hwritable => ⟨_, Program.dimensions_eq_sized available hids hfinite hwritable⟩

/-- The program `process = (f, f) : +; f = g with { h = g; }; g = f;`. -/
def tangled : Program where
  imports := []
  declarations := []
  definitions :=
    [⟨markAt 1, "process", [],
        some (.compose (markAt 2) .seq
          (.compose (markAt 3) .par (.ref (markAt 4) "f") (.ref (markAt 5) "f")) (.ref (markAt 6) "+")),
        .start⟩,
      ⟨markAt 7, "f", [],
        some (.block (markAt 8) (.ref (markAt 9) "g") [⟨markAt 10, "h", [], some (.ref (markAt 11) "g"), .start⟩]),
        .start⟩,
      ⟨markAt 12, "g", [], some (.ref (markAt 13) "f"), .start⟩]

open Sizing in
/-- In `tangled` two definitions need each other. They are opened once all the same, as is the local definition that
nothing refers to. -/
theorem Program.sized_once_tangled :
    (tangled.nodes.map (·.mark.id)).Nodup
    ∧ SizedOnce (programSizing standardPrimitives .empty tangled) tangled
    ∧ (openings (history (programSizing standardPrimitives .empty tangled) tangled)).map (·.name)
      = ["process", "f", "g", "h"]
    ∧ ∃ s, tangled.dimensions (tangled.resolve standardPrimitives .empty).1 standardPrimitives = .ok s
      ∧ s.findings = [⟨⟨1, 13⟩, .circularDefinition ["f", "g"] ⟨1, 7⟩⟩] ∧ s.frames = []
      ∧ ∀ d ∈ tangled.definitions, s.isDone d = true := by
  have hids : (tangled.nodes.map (·.mark.id)).Nodup := by decide
  obtain ⟨honce, hends, -⟩ := Program.sized_once .empty tangled hids
  have hs := dimensions_eq_ok_iff.mpr ⟨rfl,
    (by decide : (sizeProgram (programSizing standardPrimitives .empty tangled) tangled).fault = none),
    by decide⟩
  obtain ⟨-, hframes, hdone⟩ := hends _ hs
  exact ⟨hids, honce, by decide, _, hs, by decide, hframes, hdone⟩

/-- The program `process = par(i, 1e999, _);`. -/
def boundless : Program where
  imports := []
  declarations := []
  definitions :=
    [⟨markAt 1, "process", [],
      some (.call (markAt 2) "par"
        [.ref (markAt 3) "i", .number (markAt 4) (.infinite false) "1e999", .ref (markAt 5) "_"]), .start⟩]

open Sizing in
/-- A number that is not finite stops the machine in the middle of sizing a definition: `boundless` has no dimensions,
and its definition is not done. -/
theorem Program.not_sized_boundless :
    (boundless.nodes.map (·.mark.id)).Nodup
    ∧ boundless.dimensions (boundless.resolve standardPrimitives .empty).1 standardPrimitives = .error .infiniteCount
    ∧ (boundless.sized .empty).frames ≠ []
    ∧ ∀ d ∈ boundless.definitions, (boundless.sized .empty).isDone d = false := by
  refine ⟨by decide, ?_, ?_, by decide⟩
  · have hfault : (sizeProgram ⟨(boundless.resolve standardPrimitives .empty).1, standardPrimitives⟩ boundless).fault
        = some .infiniteCount := by decide
    have hfindings : (sizeProgram ⟨(boundless.resolve standardPrimitives .empty).1, standardPrimitives⟩
        boundless).findings = [] := by decide
    unfold Program.dimensions
    simp only [hfindings, hfault, all_nil, if_true]
  · exact fun hframes => absurd (congrArg List.length hframes) (by decide)

end Patchbay
