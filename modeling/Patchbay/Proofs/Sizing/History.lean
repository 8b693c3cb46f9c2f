import Patchbay.Proofs.Sizing.Course
import Patchbay.Proofs.Sizing.Reports

/-!
# The history of sizing

`history` lists what the machine does while it sizes a program, each action with the state in which it is taken: a
definition is opened, a box is made ready, a box is sized or a definition is closed. `History` is the same as a
relation, in which any action that is enabled may come next. The definitions opened and the boxes sized in a history are
those of the course of the machine, and `Record` says what becomes of their dimensions. All this holds whether or not
cycles are met, and also when the machine is stopped.
-/

open List

namespace Patchbay.Sizing

variable {c : Context} {D ds : List Definition} {s : State} {p : Program}

/-! ## Actions -/

/-- What the machine does in a step. -/
inductive Action where
  | opening (d : Definition)
  /-- The operands of a box are put before it. -/
  | preparing (b : Box)
  | sizing (b : Box)
  | closing (d : Definition)

/-- The number of the node at which the machine works. -/
def Action.id : Action → Nat
  | .opening d => d.id
  | .preparing b => b.id
  | .sizing b => b.id
  | .closing d => d.id

/-- What the machine does in a state, if a frame is left. -/
def action? (c : Context) (s : State) : Option Action :=
  match s.frames with
  | [] => none
  | ⟨d, []⟩ :: _ => some (.closing d)
  | ⟨_, (b, false) :: _⟩ :: _ => some (.preparing b)
  | ⟨_, (b, true) :: _⟩ :: _ =>
    match nextNeeded? c s b with
    | some needed => some (.opening needed)
    | none => some (.sizing b)

/-- The state after an action. -/
def State.after (c : Context) (s : State) : Action → State
  | .opening d => s.openDefinition d
  | .preparing b =>
    { s with frames := s.frames.modifyHead fun f =>
        ⟨f.definition, (operands c b).map (fun part => (part, false)) ++ (b, true) :: f.pending.tail⟩ }
  | .sizing b =>
    { (sizeBox c s b).2 with frames := s.frames.modifyHead fun f => ⟨f.definition, f.pending.tail⟩ }.enter b
      (sizeBox c s b).1
  | .closing d => s.closeDefinition d

variable {b body : Box} {ready : Bool} {a : Action} {m : Moment} {d : Definition} {below : List Frame}
  {rest : List (Box × Bool)}

/-- Preparing the first pending box. -/
theorem after_preparing (c : Context) (hframes : s.frames = ⟨d, (b, ready) :: rest⟩ :: below) :
    s.after c (.preparing b) = { s with
      frames := ⟨d, (operands c b).map (fun part => (part, false)) ++ (b, true) :: rest⟩ :: below } := by
  rw [State.after, hframes]
  rfl

/-- Sizing the first pending box. -/
theorem after_sizing (c : Context) (hframes : s.frames = ⟨d, (b, ready) :: rest⟩ :: below) : s.after c (.sizing b)
      = { (sizeBox c s b).2 with frames := ⟨d, rest⟩ :: below }.enter b (sizeBox c s b).1 := by
  rw [State.after, hframes]
  rfl

/-- The actions that are possible in a state while definitions are sized one after another. -/
inductive Enabled (c : Context) (ds : List Definition) (s : State) : Action → Prop where
  /-- Without a frame one of the definitions that are not done is opened. -/
  | next {d : Definition} (hframes : s.frames = []) (hd : d ∈ ds) (hdone : s.isDone d = false) :
      Enabled c ds s (.opening d)
  | opening {d needed : Definition} {b : Box} {rest : List (Box × Bool)} {below : List Frame}
      (hframes : s.frames = ⟨d, (b, true) :: rest⟩ :: below) (hneeded : nextNeeded? c s b = some needed) :
      Enabled c ds s (.opening needed)
  | preparing {d : Definition} {b : Box} {rest : List (Box × Bool)} {below : List Frame}
      (hframes : s.frames = ⟨d, (b, false) :: rest⟩ :: below) : Enabled c ds s (.preparing b)
  | sizing {d : Definition} {b : Box} {rest : List (Box × Bool)} {below : List Frame}
      (hframes : s.frames = ⟨d, (b, true) :: rest⟩ :: below) (hneeded : nextNeeded? c s b = none) :
      Enabled c ds s (.sizing b)
  | closing {d : Definition} {below : List Frame} (hframes : s.frames = ⟨d, []⟩ :: below) :
      Enabled c ds s (.closing d)

/-- With a frame left the machine takes an action that is enabled, and its step is that action. -/
theorem exists_action? (c : Context) (ds : List Definition) (hframes : s.frames ≠ []) :
    ∃ a, action? c s = some a ∧ Enabled c ds s a ∧ step c s = s.after c a := by
  match hs : s.frames with
  | [] => exact absurd hs hframes
  | ⟨d, []⟩ :: below => exact ⟨.closing d, by rw [action?, hs], .closing hs, by rw [step, hs]; rfl⟩
  | ⟨d, (b, false) :: rest⟩ :: below =>
    exact ⟨.preparing b, by rw [action?, hs], .preparing hs, by rw [after_preparing c hs, step, hs]⟩
  | ⟨d, (b, true) :: rest⟩ :: below =>
    rw [action?, step, hs]
    dsimp only
    cases hneeded : nextNeeded? c s b with
    | some needed => exact ⟨.opening needed, rfl, .opening hs hneeded, rfl⟩
    | none => exact ⟨.sizing b, rfl, .sizing hs hneeded, (after_sizing c hs).symm⟩

/-! ## Histories -/

/-- A state of the machine, and what it does there. -/
structure Moment where
  state : State
  action : Action

/-- The state that comes after a moment. -/
def Moment.after (c : Context) (m : Moment) : State := m.state.after c m.action

/-- What the machine does until no frame is left or a fault stops it. -/
def runHistory (c : Context) : (fuel : Nat) → State → List Moment
  | 0, _ => []
  | fuel + 1, s =>
    if s.frames.isEmpty || s.fault.isSome then []
    else ((action? c s).map (⟨s, ·⟩)).toList ++ runHistory c fuel (step c s)

/-- What the machine does to size a definition, unless it was sized before. -/
def definitionHistory (c : Context) (fuel : Nat) (s : State) (d : Definition) : List Moment :=
  if s.isDone d || s.fault.isSome then []
  else ⟨s, .opening d⟩ :: runHistory c fuel (s.openDefinition d)

/-- What the machine does to size definitions one after another. -/
def historyFrom (c : Context) (fuel : Nat) : State → List Definition → List Moment
  | _, [] => []
  | s, d :: rest => definitionHistory c fuel s d ++ historyFrom c fuel (sizeDefinition c fuel s d) rest

/-- What the machine does to size a program. -/
def history (c : Context) (p : Program) : List Moment := historyFrom c (fuelFor p) .start p.definitions

/-- From its start the machine comes to a state through moments, in order. -/
inductive History (c : Context) (ds : List Definition) : List Moment → State → Prop where
  | start : History c ds [] .start
  | act {ms : List Moment} {s : State} {a : Action} (h : History c ds ms s) (hfault : s.fault = none)
      (ha : Enabled c ds s a) : History c ds (ms ++ [⟨s, a⟩]) (s.after c a)

variable {ms : List Moment}

/-- A moment of a history comes after a history of its own, and its action is enabled. -/
theorem History.exists_of_mem (h : History c ds ms s) (hm : m ∈ ms) :
    ∃ before, before ++ [m] <+: ms ∧ History c ds before m.state ∧ m.state.fault = none
      ∧ Enabled c ds m.state m.action := by
  induction h with
  | start => cases hm
  | act h hfault ha ih =>
    rcases mem_append.mp hm with hm | hm
    · obtain ⟨before, hprefix, hbefore⟩ := ih hm
      exact ⟨before, hprefix.trans (prefix_append _ _), hbefore⟩
    · obtain rfl := mem_singleton.mp hm
      exact ⟨_, prefix_refl _, h, hfault, ha⟩

/-- Only the last moment can stop the machine. -/
theorem History.fault_after (h : History c ds ms s) (hfault : s.fault = none) (hm : m ∈ ms) :
    (m.after c).fault = none := by
  induction h with
  | start => cases hm
  | act _ hrunning _ ih =>
    rcases mem_append.mp hm with hm | hm
    · exact ih hrunning hm
    · obtain rfl := mem_singleton.mp hm
      exact hfault

/-- A run goes on with the history. -/
theorem History.run (h : History c ds ms s) (fuel : Nat) :
    History c ds (ms ++ runHistory c fuel s) (Sizing.run c fuel s) := by
  induction fuel generalizing ms s with
  | zero =>
    rw [runHistory, append_nil]
    exact h
  | succ fuel ih =>
    rw [runHistory, Sizing.run]
    split
    · rw [append_nil]
      exact h
    · rename_i hgo
      rw [Bool.or_eq_true, not_or] at hgo
      have hframes : s.frames ≠ [] := fun hframes => hgo.1 (by simp [hframes])
      obtain ⟨a, haction, ha, hstep⟩ := exists_action? c ds hframes
      rw [haction, Option.map_some, Option.toList_some, ← List.append_assoc, hstep]
      exact ih (h.act (by simpa using hgo.2) ha)

/-- Sizing a definition goes on with the history, if no frame is left. -/
theorem History.sizeDefinition (h : History c ds ms s) (fuel : Nat) (hd : d ∈ ds)
    (hframes : s.fault = none → s.frames = []) :
    History c ds (ms ++ definitionHistory c fuel s d) (Sizing.sizeDefinition c fuel s d) := by
  rw [definitionHistory, Sizing.sizeDefinition]
  split
  · rw [append_nil]
    exact h
  · rename_i hgo
    rw [Bool.or_eq_true, not_or] at hgo
    have hfault : s.fault = none := by simpa using hgo.2
    have hopened := h.act hfault (.next (hframes hfault) hd (by simpa using hgo.1))
    rw [← singleton_append, ← List.append_assoc]
    exact hopened.run fuel

/-! ## The course of a history -/

/-- The definition that an action opens. -/
def Action.opened? : Action → Option Definition
  | .opening d => some d
  | _ => none

/-- The box that an action sizes. -/
def Action.sized? : Action → Option Box
  | .sizing b => some b
  | _ => none

theorem Action.eq_opening (h : a.opened? = some d) : a = .opening d := by
  cases a with
  | opening e => rw [Option.some.inj h]
  | preparing | sizing | closing => simp [Action.opened?] at h

/-- The definitions that are opened in a history, in order. -/
def openings (ms : List Moment) : List Definition := ms.filterMap (·.action.opened?)

/-- The boxes that are sized in a history, in order. -/
def sizings (ms : List Moment) : List Box := ms.filterMap (·.action.sized?)

theorem openings_concat (ms : List Moment) (s : State) (a : Action) :
    openings (ms ++ [⟨s, a⟩]) = openings ms ++ a.opened?.toList := by
  rw [openings, filterMap_append]
  cases a <;> rfl

theorem sizings_concat (ms : List Moment) (s : State) (a : Action) :
    sizings (ms ++ [⟨s, a⟩]) = sizings ms ++ a.sized?.toList := by
  rw [sizings, filterMap_append]
  cases a <;> rfl

theorem reverse_openings_opening (ms : List Moment) (s : State) (d : Definition) :
    (openings (ms ++ [⟨s, .opening d⟩])).reverse = d :: (openings ms).reverse := by
  rw [openings_concat]
  exact reverse_append

theorem openings_of_not_opening (ha : a.opened? = none) (ms : List Moment) (s : State) :
    openings (ms ++ [⟨s, a⟩]) = openings ms := by
  rw [openings_concat, ha]
  exact append_nil _

theorem sizings_of_not_sizing (ha : a.sized? = none) (ms : List Moment) (s : State) :
    sizings (ms ++ [⟨s, a⟩]) = sizings ms := by
  rw [sizings_concat, ha]
  exact append_nil _

theorem mem_sizings : b ∈ sizings ms ↔ ∃ m ∈ ms, m.action = .sizing b := by
  rw [sizings, mem_filterMap]
  refine exists_congr fun m => and_congr_right fun _ => ?_
  cases m.action <;> simp [Action.sized?]

/-- A definition whose opening is enabled was not opened before. -/
theorem Enabled.not_opened {opened : List Definition} {settled : List Box} (hcourse : Course c D opened settled s)
    (hD : Domain c D) (hds : ds ⊆ D) (h : Enabled c ds s (.opening d)) : d ∈ D ∧ d ∉ opened := by
  have hclosed : d ∈ D ∧ s.isDone d = false ∧ s.isActive d = false := by
    cases h with
    | next hframes hd hdone => exact ⟨hds hd, hdone, by rw [State.isActive, hframes]; rfl⟩
    | opening hframes hneeded =>
      obtain ⟨hmem, hclosed⟩ := mem_of_nextNeeded? hneeded
      obtain ⟨hd, hb, -, -⟩ := hcourse.mem_bodyBoxes hframes
      exact ⟨hD.mem_of_demands (hcourse.subset hd) hb (mem_needs_iff.mp hmem), hclosed⟩
  obtain ⟨hd, hdone, hactive⟩ := hclosed
  refine ⟨hd, ?_⟩
  rw [hcourse.mem_opened_iff hD hd, hdone, hactive]
  simp

/-- A history gives the course of the machine, and each of its moments is progress. -/
theorem History.course (h : History c ds ms s) (hD : Domain c D) (hds : ds ⊆ D) :
    Course c D (openings ms).reverse (sizings ms) s
      ∧ ms.length ≤ progress (openings ms).reverse (sizings ms) s := by
  induction h with
  | start => exact ⟨course_start c D, Nat.zero_le _⟩
  | @act ms s a _ hfault ha ih =>
    obtain ⟨hcourse, hlength⟩ := ih
    rw [length_append, length_singleton]
    cases a with
    | opening d =>
      obtain ⟨hd, hnot⟩ := ha.not_opened hcourse hD hds
      obtain ⟨hcourse', hprogress⟩ := hcourse.openDefinition hd hnot
      rw [reverse_openings_opening, sizings_of_not_sizing rfl]
      exact ⟨hcourse', Nat.lt_of_le_of_lt hlength hprogress⟩
    | preparing b =>
      cases ha with
      | preparing hframes =>
        obtain ⟨hcourse', hprogress⟩ := hcourse.prepare hframes
        rw [openings_of_not_opening rfl, sizings_of_not_sizing rfl, after_preparing c hframes]
        exact ⟨hcourse', Nat.lt_of_le_of_lt hlength hprogress⟩
    | sizing b =>
      cases ha with
      | @sizing d _ rest below hframes hneeded =>
        obtain ⟨hframes', hdone', -⟩ :=
          enter_eq { (sizeBox c s b).2 with frames := ⟨d, rest⟩ :: below } b (sizeBox c s b).1
        obtain ⟨hcourse', hprogress⟩ :=
          hcourse.settle hD hframes hneeded hframes' (hdone'.trans (keeps_sizeBox c s b).done)
        rw [openings_of_not_opening rfl, sizings_concat, after_sizing c hframes]
        exact ⟨hcourse', Nat.lt_of_le_of_lt hlength hprogress⟩
    | closing d =>
      cases ha with
      | closing hframes =>
        obtain ⟨hcourse', hprogress⟩ := hcourse.closeDefinition hframes
        rw [openings_of_not_opening rfl, sizings_of_not_sizing rfl]
        exact ⟨hcourse', Nat.lt_of_le_of_lt hlength hprogress⟩

/-! ## The end -/

/-- A run comes to an end, unless it takes all steps that it may take. -/
theorem length_runHistory (c : Context) (fuel : Nat) (s : State) :
    (runHistory c fuel s).length = fuel ∨ ((run c fuel s).fault = none → (run c fuel s).frames = []) := by
  induction fuel generalizing s with
  | zero => exact .inl rfl
  | succ fuel ih =>
    rw [runHistory, run]
    split
    · rename_i hstop
      exact .inr fun hfault => by simpa [hfault] using hstop
    · rename_i hgo
      obtain ⟨a, haction, -⟩ := exists_action? c [] fun hframes : s.frames = [] => hgo (by simp [hframes])
      rw [haction]
      exact (ih (step c s)).imp_left fun hlength => by simp [hlength]

section

variable (hD : Domain c D) (hds : ds ⊆ D) {fuel : Nat} (hfuel : 2 * (D.flatMap (numbers c)).length < fuel)

include hD hds hfuel

/-- With steps enough a run comes to an end, unless the machine is stopped: there is no more progress than that. -/
theorem History.frames_run (h : History c ds ms s) (hfault : (Sizing.run c fuel s).fault = none) :
    (Sizing.run c fuel s).frames = [] := by
  rcases length_runHistory c fuel s with hlength | hends
  · obtain ⟨hcourse, hprogress⟩ := (h.run fuel).course hD hds
    have hle := hcourse.progress_le
    rw [length_append, hlength] at hprogress
    omega
  · exact hends hfault

/-- After a definition was sized no frame is left, unless the machine is stopped. -/
theorem History.frames_sizeDefinition (h : History c ds ms s) (hd : d ∈ ds) (hframes : s.fault = none → s.frames = [])
    (hfault : (Sizing.sizeDefinition c fuel s d).fault = none) : (Sizing.sizeDefinition c fuel s d).frames = [] := by
  unfold Sizing.sizeDefinition at hfault ⊢
  split
  · rename_i hstop
    rw [if_pos hstop] at hfault
    exact hframes hfault
  · rename_i hgo
    rw [if_neg hgo] at hfault
    rw [Bool.or_eq_true, not_or] at hgo
    have hrunning : s.fault = none := by simpa using hgo.2
    exact (h.act hrunning (.next (hframes hrunning) hd (by simpa using hgo.1))).frames_run hD hds hfuel hfault

/-- Sizing definitions one after another goes on with the history. In the end no frame is left and all of them were
opened, unless the machine is stopped. -/
theorem History.foldl (h : History c ds ms s) {es : List Definition} (hes : es ⊆ ds)
    (hframes : s.fault = none → s.frames = []) :
    History c ds (ms ++ historyFrom c fuel s es) (es.foldl (Sizing.sizeDefinition c fuel) s)
      ∧ ((es.foldl (Sizing.sizeDefinition c fuel) s).fault = none →
        s.fault = none ∧ (es.foldl (Sizing.sizeDefinition c fuel) s).frames = []
          ∧ es ⊆ openings (ms ++ historyFrom c fuel s es)) := by
  induction es generalizing ms s with
  | nil =>
    rw [historyFrom, append_nil]
    exact ⟨h, fun hfault => ⟨hfault, hframes hfault, nil_subset _⟩⟩
  | cons d rest ih =>
    rw [cons_subset] at hes
    rw [historyFrom, ← List.append_assoc, foldl_cons]
    obtain ⟨hhistory, hends⟩ := ih (h.sizeDefinition fuel hes.1 hframes) hes.2
      (h.frames_sizeDefinition hD hds hfuel hes.1 hframes)
    refine ⟨hhistory, fun hfault => ?_⟩
    obtain ⟨hrunning, hends⟩ := hends hfault
    have hstart : s.fault = none := by
      by_contra hstopped
      rw [Sizing.sizeDefinition, if_pos (by simp [Option.isSome_iff_ne_none, hstopped])] at hrunning
      exact hstopped hrunning
    refine ⟨hstart, hends.1, cons_subset.mpr ⟨?_, hends.2⟩⟩
    rw [List.append_assoc, openings, filterMap_append]
    by_cases hdone : s.isDone d
    · have hopened := ((h.course hD hds).1.mem_opened_iff hD (hds hes.1)).mpr (.inl hdone)
      exact mem_append_left _ (mem_reverse.mp hopened)
    · rw [definitionHistory, if_neg (by simp [hdone, hstart])]
      exact mem_append_right _ mem_cons_self

end

/-! ## The history of a program -/

/-- The sized definitions of a program with different numbers. What sized boxes refer to is one of them. -/
theorem domain_program (primitives : Primitives) (available : Libraries) (hids : (p.nodes.map (·.mark.id)).Nodup)
    (hc : c = programSizing primitives available p) :
    Domain c (sizedDefinitions c p) ∧ p.definitions ⊆ sizedDefinitions c p := by
  obtain ⟨l, hperm, hsublist⟩ := subperm_sizedDefinitions c p
  refine ⟨⟨hc ▸ coherent_resolve primitives available hids, ?_, ?_, ?_⟩, subset_definitionsOfAll p.definitions⟩
  · exact hperm.nodup_iff.mp (hsublist.nodup hids)
  · intro d hd b hb e he
    exact (visible_of_referred primitives available hids hc hd hb he).mem_sizedDefinitions hd
  · exact fun d hd => hasLocals_sizedDefinitions hd

/-- There are steps enough for all that is sized. -/
theorem numbers_lt_fuelFor (c : Context) (p : Program) :
    2 * ((sizedDefinitions c p).flatMap (numbers c)).length < fuelFor p := by
  have hle := (subperm_sizedDefinitions c p).length_le
  rw [length_map] at hle
  unfold fuelFor
  omega

section

variable (primitives : Primitives) (available : Libraries) (hids : (p.nodes.map (·.mark.id)).Nodup)

include hids

/-- The history of a program leads to the state in which its sizing ends. Then all its definitions are done, unless the
machine is stopped. -/
theorem sizeProgram_ends (c : Context) (hc : c = programSizing primitives available p) :
    History c p.definitions (history c p) (sizeProgram c p) ∧ ((sizeProgram c p).fault = none →
      (sizeProgram c p).frames = [] ∧ p.definitions ⊆ openings (history c p)
        ∧ ∀ d ∈ p.definitions, (sizeProgram c p).isDone d) := by
  obtain ⟨hD, hds⟩ := domain_program primitives available hids hc
  obtain ⟨hhistory, hends⟩ := History.start.foldl hD hds (numbers_lt_fuelFor _ p) (List.Subset.refl _) fun _ => rfl
  refine ⟨hhistory, fun hfault => ?_⟩
  obtain ⟨-, hframes, hopened⟩ := hends hfault
  refine ⟨hframes, hopened, fun d hd => ?_⟩
  have hstatus := ((hhistory.course hD hds).1.mem_opened_iff hD (hds hd)).mp (mem_reverse.mpr (hopened hd))
  refine hstatus.resolve_right ?_
  rw [State.isActive, show State.frames _ = [] from hframes]
  exact Bool.false_ne_true

theorem history_program :
    History (programSizing primitives available p) p.definitions (history (programSizing primitives available p) p)
      (sizeProgram (programSizing primitives available p) p) :=
  (sizeProgram_ends primitives available hids _ rfl).1

end

/-- A program has dimensions if nothing stopped its sizing and all findings can be written. -/
theorem dimensions_eq_ok_iff {resolution : Resolution} {primitives : Primitives} :
    p.dimensions resolution primitives = .ok s ↔
      sizeProgram ⟨resolution, primitives⟩ p = s ∧ s.fault = none
        ∧ (s.findings.all fun f => f.issue.isWritable) := by
  unfold Program.dimensions
  generalize sizeProgram ⟨resolution, primitives⟩ p = t
  dsimp only
  constructor
  · intro h
    split at h
    · rename_i hwritable
      split at h
      · simp at h
      · rename_i hfault
        obtain rfl := Except.ok.inj h
        exact ⟨rfl, hfault, hwritable⟩
    · simp at h
  · rintro ⟨rfl, hfault, hwritable⟩
    rw [if_pos hwritable, hfault]

/-! ## Findings -/

theorem findings_after_sizing (c : Context) (s : State) (b : Box) :
    (s.after c (.sizing b)).findings = (sizeBox c s b).2.findings := by
  rw [State.after, (enter_eq _ _ _).2.2.1]

/-- What is reported in a moment. -/
def Moment.reports (c : Context) (m : Moment) : List Finding := (m.after c).findings.drop m.state.findings.length

/-- Only the sizing of a box changes the findings. -/
theorem findings_of_not_sizing (ha : a.sized? = none) (c : Context) (s : State) :
    (s.after c a).findings = s.findings := by
  cases a with
  | opening d => exact (openDefinition_eq s d).1
  | preparing b => rfl
  | sizing b => simp [Action.sized?] at ha
  | closing d => exact (Course.frames_closeDefinition s d).2.2.1

theorem reports_of_not_sizing (ha : a.sized? = none) (c : Context) (s : State) : (⟨s, a⟩ : Moment).reports c = [] := by
  rw [Moment.reports, Moment.after, findings_of_not_sizing ha, drop_length]

/-- An action adds what it reports. -/
theorem findings_after (c : Context) (s : State) (a : Action) :
    (s.after c a).findings = s.findings ++ (⟨s, a⟩ : Moment).reports c := by
  cases a with
  | sizing b =>
    obtain ⟨new, hnew, -⟩ := reports_sizeBox c s b
    rw [Moment.reports, Moment.after, findings_after_sizing, hnew, drop_left]
  | opening | preparing | closing => rw [reports_of_not_sizing rfl, findings_of_not_sizing rfl, append_nil]

/-- Something is reported when a box is sized. -/
theorem exists_sizing_of_reports {f : Finding} (hf : f ∈ m.reports c) : ∃ b, m.action = .sizing b := by
  obtain ⟨s, a⟩ := m
  cases a with
  | sizing b => exact ⟨b, rfl⟩
  | opening | preparing | closing =>
    rw [reports_of_not_sizing rfl] at hf
    cases hf

/-- The sizing of a box reports what is found about it. -/
theorem report_of_sizing (c : Context) (s : State) (b : Box) :
    Report c s b (sizeBox c s b).1 ((⟨s, .sizing b⟩ : Moment).reports c) := by
  obtain ⟨new, hnew, hreport⟩ := reports_sizeBox c s b
  rw [Moment.reports, Moment.after, findings_after_sizing, hnew, drop_left]
  exact hreport

/-- The findings are what was reported in the moments of the history, in order. -/
theorem History.findings (h : History c ds ms s) : s.findings = ms.flatMap (Moment.reports c) := by
  induction h with
  | start => rfl
  | act _ _ _ ih => rw [findings_after, ih, flatMap_append, flatMap_singleton]

/-- All findings are such as sizing reports. -/
theorem History.reported (h : History c ds ms s) : ∀ f ∈ s.findings, Reported c f.issue := by
  intro f hf
  rw [h.findings] at hf
  obtain ⟨⟨s, a⟩, -, hreports⟩ := mem_flatMap.mp hf
  obtain ⟨b, rfl⟩ := exists_sizing_of_reports hreports
  obtain ⟨new, hnew, hreported⟩ := (keeps_sizeBox c s b).findings
  rw [Moment.reports, Moment.after, findings_after_sizing, hnew, drop_left] at hreports
  exact hreported f hreports

/-- What is reported in moments is reported about the boxes that are sized in them. -/
theorem flatMap_reports (found : Box → List Finding) (h : ∀ m ∈ ms, ∀ b, m.action = .sizing b → m.reports c = found b) :
    ms.flatMap (Moment.reports c) = (sizings ms).flatMap found := by
  induction ms with
  | nil => rfl
  | cons m rest ih =>
    obtain ⟨s, a⟩ := m
    rw [flatMap_cons, ih fun m hm => h m (mem_cons_of_mem _ hm)]
    cases a with
    | sizing b => rw [h _ mem_cons_self b rfl]; rfl
    | opening | preparing | closing => rw [reports_of_not_sizing rfl]; rfl

/-- After a moment of a history there is no finding that there is not in the end. -/
theorem History.findings_subset (h : History c ds ms s) (hm : m ∈ ms) : (m.after c).findings ⊆ s.findings := by
  obtain ⟨before, ⟨rest, hms⟩, hbefore, hfault, ha⟩ := h.exists_of_mem hm
  have hafter : (m.after c).findings = (before ++ [m]).flatMap (Moment.reports c) := (hbefore.act hfault ha).findings
  rw [h.findings, ← hms, flatMap_append, hafter]
  exact subset_append_left _ _

/-! ## Dimensions -/

/-- The number under which an action enters a dimension. -/
def Action.entered? (c : Context) (s : State) : Action → Option Nat
  | .sizing b => (sizeBox c s b).1.map fun _ => b.id
  | .closing d => (d.body.bind s.dim?).map fun _ => d.id
  | _ => none

/-- Closing a definition enters its dimension if its body has one. -/
theorem dims_closeDefinition (s : State) (d : Definition) :
    (s.closeDefinition d).dims = (d.body.bind s.dim?).elim s.dims fun body =>
      s.dims.insert d.id ⟨d.params.length + body.inputs, body.outputs⟩ := by
  have hsame : ({ s with frames := s.frames.tail, done := d.id :: s.done } : State).dim? = s.dim? := rfl
  unfold State.closeDefinition
  dsimp only
  rw [hsame]
  cases d.body.bind s.dim? with
  | none => rfl
  | some body => rfl

variable {id : Nat}

/-- An action leaves all dimensions as they are apart from the one it enters. -/
theorem get?_after (h : a.entered? c s ≠ some id) : (s.after c a).dims.get? id = s.dims.get? id := by
  cases a with
  | opening d => exact congrArg (Table.get? · id) (openDefinition_eq s d).2.2.1
  | preparing b => rfl
  | sizing b =>
    rw [State.after]
    rw [Action.entered?] at h
    have hdims := (keeps_sizeBox c s b).dims
    cases hdim : (sizeBox c s b).1 with
    | none => exact congrArg (Table.get? · id) hdims
    | some dim =>
      have hid : id ≠ b.id := fun heq => h (by rw [hdim, heq]; rfl)
      refine (Table.get?_insert_of_ne _ hid dim).trans ?_
      rw [hdims]
  | closing d =>
    rw [State.after, dims_closeDefinition]
    rw [Action.entered?] at h
    cases hdim : d.body.bind s.dim? with
    | none => rfl
    | some dim =>
      have hid : id ≠ d.id := fun heq => h (by rw [hdim, heq]; rfl)
      exact Table.get?_insert_of_ne _ hid _

/-- What is done stays done, and there is one more at most: a definition that is closed, or one that is opened and could
not be read. -/
theorem mem_done_after (c : Context) (s : State) (a : Action) : id ∈ (s.after c a).done ↔
    id ∈ s.done ∨ ∃ d, d.id = id ∧ (a = .opening d ∧ d.validBody? = none ∨ a = .closing d) := by
  cases a with
  | opening d =>
    rw [State.after, State.openDefinition]
    cases hbody : d.validBody? with
    | none => simp [hbody, or_comm, eq_comm]
    | some body => simp [hbody]
  | preparing b => simp [State.after]
  | sizing b => simp [State.after, (enter_eq _ _ _).2.1, (keeps_sizeBox c s b).done]
  | closing d => simp [State.after, (Course.frames_closeDefinition s d).2.1, or_comm, eq_comm]

theorem body_of_validBody? (h : d.validBody? = some body) : d.body = some body := by
  unfold Definition.validBody? at h
  split at h
  · simp at h
  · exact h

/-- The dimension of a definition whose body was sized. -/
def State.bodyDim? (s : State) (d : Definition) : Option Dimension :=
  (d.validBody?.bind s.dim?).map fun body => ⟨d.params.length + body.inputs, body.outputs⟩

/-- What has become of the dimensions after a history: none was lost, sized boxes have what their sizing gave,
definitions that are done have what their bodies give, and nothing else has any. -/
structure Record (c : Context) (D : List Definition) (ms : List Moment) (s : State) : Prop
    extends Course c D (openings ms).reverse (sizings ms) s where
  kept : ∀ m ∈ ms, ∀ id v, m.state.dims.get? id = some v → s.dims.get? id = some v
  boxes : ∀ m ∈ ms, ∀ b, m.action = .sizing b → s.dim? b = (sizeBox c m.state b).1
  definitions : ∀ d ∈ openings ms, d.id ∈ s.done → s.dims.get? d.id = s.bodyDim? d
  others : ∀ id, id ∉ (sizings ms).map Box.id → id ∉ s.done → s.dims.get? id = none

namespace Record

theorem mem_opened (h : Record c D ms s) (hd : d ∈ openings ms) : d ∈ D :=
  h.subset (mem_reverse.mpr hd)

/-- The number under which a dimension is entered is that of neither a box sized before nor a definition done. -/
theorem entered_fresh (h : Record c D ms s) (hD : Domain c D) (ha : Enabled c ds s a)
    (hid : a.entered? c s = some id) : id ∉ (sizings ms).map Box.id ∧ id ∉ s.done := by
  cases ha with
  | next | opening | preparing => simp [Action.entered?] at hid
  | @sizing d b rest below hframes hneeded =>
    obtain ⟨-, -, rfl⟩ := Option.map_eq_some_iff.mp hid
    obtain ⟨-, -, hremaining, -⟩ := h.mem_bodyBoxes hframes
    exact ⟨h.not_settled_of_remaining hD hremaining,
      h.box_not_done hD (h.mem_boxes (mem_append_right _ hremaining))⟩
  | @closing d below hframes =>
    obtain ⟨-, -, rfl⟩ := Option.map_eq_some_iff.mp hid
    have hframe : ⟨d, []⟩ ∈ s.frames := by simp [hframes]
    obtain ⟨hd, -⟩ := h.framed _ hframe
    exact ⟨h.definition_not_settled hD (h.subset hd), h.not_done_of_framed hD hframe⟩

/-- No dimension is entered where there is one. -/
theorem unknown_of_entered (h : Record c D ms s) (hD : Domain c D) (ha : Enabled c ds s a)
    (hid : a.entered? c s = some id) : s.dims.get? id = none := by
  obtain ⟨hsettled, hdone⟩ := h.entered_fresh hD ha hid
  exact h.others id hsettled hdone

/-- No dimension is lost. -/
theorem get?_after_eq_some (h : Record c D ms s) (hD : Domain c D) (ha : Enabled c ds s a) {v : Dimension}
    (hv : s.dims.get? id = some v) : (s.after c a).dims.get? id = some v := by
  rw [get?_after fun hid => Option.some_ne_none v (hv.symm.trans (h.unknown_of_entered hD ha hid))]
  exact hv

/-- The body of a definition that could be read is among its boxes. -/
theorem body_mem_bodyBoxes (h : d.validBody? = some body) : body ∈ bodyBoxes c d := by
  rw [bodyBoxes_of_some h, boxesIn_eq]
  exact mem_cons_self

variable (h : Record c D ms s)

include h

variable (hD : Domain c D)

include hD

/-- The body of a definition that is done was sized. -/
theorem body_mem_sizings (hd : d ∈ openings ms) (hdone : d.id ∈ s.done)
    (hbody : d.validBody? = some body) : body ∈ sizings ms :=
  h.settled_of_done hD (mem_reverse.mpr hd) hdone (body_mem_bodyBoxes hbody)

/-- A definition that was not opened has no dimension. -/
theorem unknown_of_not_opened (hd : d ∈ D) (hnot : d ∉ (openings ms).reverse) : s.dims.get? d.id = none := by
  refine h.others d.id (h.definition_not_settled hD hd) fun hdone => hnot ?_
  exact (h.mem_opened_iff hD hd).mpr (.inl (by simpa [State.isDone] using hdone))

/-- A definition that is closed gets the dimension that its body gives. -/
theorem bodyDim?_after_closing (hframes : s.frames = ⟨d, []⟩ :: below) :
    (s.after c (.closing d)).dims.get? d.id = (s.after c (.closing d)).bodyDim? d := by
  have hframe : ⟨d, []⟩ ∈ s.frames := by simp [hframes]
  obtain ⟨hd, hsound⟩ := h.framed _ hframe
  obtain ⟨body, (hbody : d.validBody? = some body), hpending⟩ := hsound.body
  have hsized : body ∈ sizings ms := hpending.resolve_right not_mem_nil
  have hclosing : Enabled c [] s (.closing d) := .closing hframes
  have hsame : (s.after c (.closing d)).dim? body = s.dim? body :=
    get?_after fun hid => (h.entered_fresh hD hclosing hid).1 (mem_map_of_mem hsized)
  rw [State.bodyDim?, hbody, Option.bind_some, hsame]
  cases hdim : s.dim? body with
  | none =>
    rw [get?_after (by simp [Action.entered?, body_of_validBody? hbody, hdim])]
    exact h.others d.id (h.definition_not_settled hD (h.subset hd)) (h.not_done_of_framed hD hframe)
  | some dim =>
    rw [State.after, dims_closeDefinition, body_of_validBody? hbody, Option.bind_some, hdim]
    exact Table.get?_insert_self _ _ _

/-- A definition that is done after an action has what its body gives. -/
theorem bodyDim?_after (hds : ds ⊆ D) (ha : Enabled c ds s a) (hd : d ∈ D)
    (hdone : d.id ∈ (s.after c a).done) : (s.after c a).dims.get? d.id = (s.after c a).bodyDim? d := by
  rcases (mem_done_after c s a).mp hdone with hdone | ⟨e, hid, ⟨rfl, hbody⟩ | rfl⟩
  · -- The numbers of the definition and of its body are not entered again.
    have hopened : d ∈ openings ms :=
      mem_reverse.mp ((h.mem_opened_iff hD hd).mpr (.inl (by simpa [State.isDone] using hdone)))
    rw [get?_after fun hid => (h.entered_fresh hD ha hid).2 hdone, h.definitions d hopened hdone, State.bodyDim?,
      State.bodyDim?]
    cases hbody : d.validBody? with
    | none => rfl
    | some body =>
      have hsized := h.body_mem_sizings hD hopened hdone hbody
      have hsame : (s.after c a).dim? body = s.dim? body :=
        get?_after fun hid => (h.entered_fresh hD ha hid).1 (mem_map_of_mem hsized)
      rw [Option.bind_some, Option.bind_some, hsame]
  · obtain ⟨he, hnot⟩ := ha.not_opened h.toCourse hD hds
    obtain rfl : e = d := hD.definition_eq he hd hid
    rw [State.bodyDim?, hbody, get?_after (by simp [Action.entered?])]
    exact h.unknown_of_not_opened hD hd hnot
  · cases ha with
    | closing hframes =>
      obtain ⟨he, -⟩ := h.framed ⟨e, []⟩ (by simp [hframes])
      obtain rfl : e = d := hD.definition_eq (h.subset he) hd hid
      exact h.bodyDim?_after_closing hD hframes

/-- A box has the dimension that its sizing gives. -/
theorem dim?_after_sizing (ha : Enabled c ds s (.sizing b)) : (s.after c (.sizing b)).dim? b = (sizeBox c s b).1 := by
  cases hdim : (sizeBox c s b).1 with
  | none =>
    cases ha with
    | sizing hframes hneeded =>
      obtain ⟨-, -, hremaining, -⟩ := h.mem_bodyBoxes hframes
      have hunknown := h.others b.id (h.not_settled_of_remaining hD hremaining)
        (h.box_not_done hD (h.mem_boxes (mem_append_right _ hremaining)))
      rw [State.dim?, get?_after (by simp [Action.entered?, hdim])]
      exact hunknown
  | some dim =>
    rw [State.after, hdim]
    exact Table.get?_insert_self _ _ _

/-- An action that is enabled keeps the record. -/
theorem act (hds : ds ⊆ D) {a : Action} (ha : Enabled c ds s a)
    (hcourse : Course c D (openings (ms ++ [⟨s, a⟩])).reverse (sizings (ms ++ [⟨s, a⟩])) (s.after c a)) :
    Record c D (ms ++ [⟨s, a⟩]) (s.after c a) := by
  refine ⟨hcourse, ?_, ?_, fun d hd hdone => ?_, ?_⟩
  · intro m hm id v hv
    rcases mem_append.mp hm with hm | hm
    · exact h.get?_after_eq_some hD ha (h.kept m hm id v hv)
    · rw [mem_singleton.mp hm] at hv
      exact h.get?_after_eq_some hD ha hv
  · intro m hm b hb
    rcases mem_append.mp hm with hm | hm
    · -- The number of a box sized before is not entered again.
      have hmem : b.id ∈ (sizings ms).map Box.id := mem_map_of_mem (mem_sizings.mpr ⟨m, hm, hb⟩)
      rw [State.dim?, get?_after fun hid => (h.entered_fresh hD ha hid).1 hmem]
      exact h.boxes m hm b hb
    · obtain rfl := mem_singleton.mp hm
      obtain rfl : a = .sizing b := hb
      exact h.dim?_after_sizing hD ha
  · exact h.bodyDim?_after hD hds ha (hcourse.subset (mem_reverse.mpr hd)) hdone
  · intro id hsettled hdone
    rw [sizings_concat, map_append, mem_append, not_or] at hsettled
    have hentered : a.entered? c s ≠ some id := by
      intro hid
      cases a with
      | opening | preparing => simp [Action.entered?] at hid
      | sizing b =>
        obtain ⟨-, -, rfl⟩ := Option.map_eq_some_iff.mp hid
        exact hsettled.2 mem_cons_self
      | closing d =>
        obtain ⟨-, -, rfl⟩ := Option.map_eq_some_iff.mp hid
        exact hdone ((mem_done_after c s _).mpr (.inr ⟨d, rfl, .inr rfl⟩))
    rw [get?_after hentered]
    exact h.others id hsettled.1 fun hmem => hdone ((mem_done_after c s a).mpr (.inl hmem))

end Record

/-- A history leaves a record. -/
theorem History.record (h : History c ds ms s) (hD : Domain c D) (hds : ds ⊆ D) : Record c D ms s := by
  induction h with
  | start =>
    refine ⟨course_start c D, ?_, ?_, ?_, fun _ _ _ => rfl⟩
    · exact fun m hm => absurd hm not_mem_nil
    · exact fun m hm => absurd hm not_mem_nil
    · exact fun d hd => absurd hd not_mem_nil
  | act h hfault ha ih => exact ih.act hD hds ha ((h.act hfault ha).course hD hds).1

end Patchbay.Sizing
