import Patchbay.Proofs.Sizing.Compute

/-!
# The course of the machine

The machine opens definitions and settles boxes. `Course` relates its state to the definitions opened and to the boxes
settled so far: boxes of opened definitions that are not settled stand in a frame, behind their operands. Each step
keeps this, and each step is progress: it settles or prepares a box, or opens or closes a definition. There is only so
much progress, whether or not the machine meets cycles.
-/

open List

namespace Patchbay.Sizing

/-! ## The definitions that the machine may open -/

/-- Definitions with different numbers for all that is sized with them, whose boxes refer to definitions among them. -/
structure Domain (c : Context) (D : List Definition) : Prop where
  coherent : Delay.Coherent c.resolution
  nodup : (D.flatMap (numbers c)).Nodup
  referred : ∀ d ∈ D, ∀ b ∈ bodyBoxes c d, ∀ e, Delay.referred? c.resolution b = some e → e ∈ D
  locals : ∀ d ∈ D, HasLocals (bodyBoxes c d) D

variable {c : Context} {D : List Definition} {s : State}

/-- The numbers of definitions and those of their boxes. -/
theorem perm_numbers (c : Context) (D : List Definition) :
    (D.flatMap (numbers c)).Perm (D.map (·.id) ++ (D.flatMap (bodyBoxes c)).map Box.id) := by
  induction D with
  | nil => exact Perm.refl _
  | cons d rest ih =>
    rw [flatMap_cons, flatMap_cons, map_cons, map_append, numbers, cons_append,
      cons_append]
    refine Perm.cons _ ?_
    exact (ih.append_left _).trans (perm_append_comm_assoc _ _ _)

theorem Domain.nodup_append (h : Domain c D) : (D.map (·.id) ++ (D.flatMap (bodyBoxes c)).map Box.id).Nodup :=
  (perm_numbers c D).nodup_iff.mp h.nodup

variable {b : Box} {f : Frame} {settled settled' : Box → Prop} {d e : Definition} {below : List Frame}
  {rest pending : List (Box × Bool)}

/-- A definition is known by its number. -/
theorem Domain.definition_eq (h : Domain c D) (hd : d ∈ D) (he : e ∈ D) (hid : d.id = e.id) : d = e :=
  inj_on_of_nodup_map (List.nodup_append.mp h.nodup_append).1 hd he hid

/-- A box has no number of a definition. -/
theorem Domain.box_ne_definition (h : Domain c D) (hd : d ∈ D) (hb : b ∈ D.flatMap (bodyBoxes c)) : b.id ≠ d.id := by
  intro heq
  have hdisjoint := (List.nodup_append.mp h.nodup_append).2.2
  exact hdisjoint d.id (mem_map_of_mem hd) b.id (mem_map_of_mem hb) heq.symm

theorem Domain.nodup_boxes (h : Domain c D) : ((D.flatMap (bodyBoxes c)).map Box.id).Nodup :=
  (List.nodup_append.mp h.nodup_append).2.1

/-- A box belongs to one definition. -/
theorem Domain.owner_eq (h : Domain c D) (hd : d ∈ D) (he : e ∈ D) (hbd : b ∈ bodyBoxes c d) (hbe : b ∈ bodyBoxes c e) :
    d = e :=
  eq_of_mem_flatMap h.nodup hd he (mem_cons_of_mem _ (mem_map_of_mem hbd))
    (mem_cons_of_mem _ (mem_map_of_mem hbe))

/-- The definitions that a box asks for are among those of the domain. -/
theorem Domain.mem_of_demands (h : Domain c D) (hd : d ∈ D) (hb : b ∈ bodyBoxes c d) {dim? : Box → Option Dimension}
    (he : Demands c dim? b e) : e ∈ D := by
  cases b with
  | ref mark name => exact h.referred d hd _ hb e he
  | call mark name args => exact h.referred d hd _ hb e he.2
  | block mark body locals => exact h.locals d hd mark body locals hb he
  | number | string | compose => simp [Demands] at he

/-! ## Frames -/

/-- The boxes that a pending box stands for: one that is not ready stands for all that is sized with it. -/
def pendingBoxes (c : Context) : Box × Bool → List Box
  | (b, true) => [b]
  | (b, false) => boxesIn c b

/-- The boxes of a frame that are not settled. -/
def Frame.remaining (c : Context) (f : Frame) : List Box := f.pending.flatMap (pendingBoxes c)

/-- Each ready box comes when its operands are settled: they are, or they stand before it. -/
def Disciplined (c : Context) (settled : Box → Prop) : List (Box × Bool) → Prop
  | [] => True
  | (b, ready) :: rest =>
    (ready = true → ∀ x ∈ operands c b, settled x) ∧ Disciplined c (fun x => x = b ∨ settled x) rest

theorem Disciplined.mono (h : Disciplined c settled pending) (hsub : ∀ x, settled x → settled' x) :
    Disciplined c settled' pending := by
  induction pending generalizing settled settled' with
  | nil => exact trivial
  | cons entry rest ih =>
    obtain ⟨b, ready⟩ := entry
    refine ⟨fun hready x hx => hsub x (h.1 hready x hx), ih h.2 ?_⟩
    intro x hx
    rcases hx with rfl | hx
    · exact .inl rfl
    · exact .inr (hsub x hx)

/-- Boxes that are not ready may stand before any others. -/
theorem Disciplined.of_operands (xs : List Box) (h : Disciplined c (fun x => x ∈ xs ∨ settled x) pending) :
    Disciplined c settled (xs.map (fun x => (x, false)) ++ pending) := by
  induction xs generalizing settled with
  | nil => exact h.mono fun x hx => hx.resolve_left not_mem_nil
  | cons first rest ih =>
    refine ⟨fun hready => absurd hready Bool.false_ne_true, ih (h.mono ?_)⟩
    intro x hx
    rcases hx with hx | hx
    · rcases mem_cons.mp hx with rfl | hx
      · exact .inr (.inl rfl)
      · exact .inl hx
    · exact .inr (.inr hx)

/-- A frame works on the boxes of a definition that could be read. Its body is settled or still pending. -/
structure Frame.Sound (c : Context) (settled : Box → Prop) (f : Frame) : Prop where
  body : ∃ body, f.definition.validBody? = some body ∧ (settled body ∨ body ∈ f.pending.map (·.1))
  disciplined : Disciplined c settled f.pending
  own : f.remaining c ⊆ bodyBoxes c f.definition

theorem Frame.Sound.mono (h : f.Sound c settled) (hsub : ∀ x, settled x → settled' x) : f.Sound c settled' := by
  obtain ⟨body, hbody, hpending⟩ := h.body
  exact ⟨⟨body, hbody, hpending.imp_left (hsub body)⟩, h.disciplined.mono hsub, h.own⟩

/-- When the first pending box is settled, the frame goes on behind it. -/
theorem Frame.Sound.settle {ready : Bool} (h : (⟨d, (b, ready) :: rest⟩ : Frame).Sound c settled) (hb : settled' b)
    (hsub : ∀ x, settled x → settled' x) : (⟨d, rest⟩ : Frame).Sound c settled' := by
  obtain ⟨body, hbody, hpending⟩ := h.body
  refine ⟨⟨body, hbody, ?_⟩, h.disciplined.2.mono ?_, ?_⟩
  · rcases hpending with hmem | hmem
    · exact .inl (hsub body hmem)
    · rcases mem_cons.mp hmem with rfl | hmem
      · exact .inl hb
      · exact .inr hmem
  · intro x hx
    rcases hx with rfl | hx
    · exact hb
    · exact hsub x hx
  · intro x hx
    exact h.own (by rw [Frame.remaining, flatMap_cons]; exact mem_append_right _ hx)

/-! ## The course -/

/-- The state of the machine after it opened definitions and settled boxes. -/
structure Course (c : Context) (D opened : List Definition) (settled : List Box) (s : State) : Prop where
  subset : opened ⊆ D
  nodup : opened.Nodup
  /-- Opened definitions are done or being sized. -/
  status : (opened.map (·.id)).Perm (s.done ++ s.frames.map (·.definition.id))
  framed : ∀ f ∈ s.frames, f.definition ∈ opened ∧ f.Sound c (· ∈ settled)
  /-- The boxes of opened definitions are settled or stand in a frame. -/
  account : (settled ++ s.frames.flatMap (Frame.remaining c)).Perm (opened.flatMap (bodyBoxes c))
  locals : ∀ mark body locals, Box.block mark body locals ∈ settled → locals ⊆ opened

/-- What the machine has done so far. -/
def progress (opened : List Definition) (settled : List Box) (s : State) : Nat :=
  2 * settled.length + (s.frames.flatMap (·.pending)).countP (·.2) + opened.length + s.done.length

theorem course_start (c : Context) (D : List Definition) : Course c D [] [] .start := by
  refine ⟨nil_subset _, nodup_nil, Perm.refl _, ?_, Perm.refl _, ?_⟩
  · exact fun f hf => absurd hf not_mem_nil
  · exact fun _ _ _ hmem => absurd hmem not_mem_nil

namespace Course

variable {opened : List Definition} {settled : List Box}

section

variable (h : Course c D opened settled s)

include h

theorem mem_opened_iff (hD : Domain c D) (hd : d ∈ D) : d ∈ opened ↔ s.isDone d ∨ s.isActive d := by
  have hstatus : d.id ∈ opened.map (·.id) ↔ d.id ∈ s.done ∨ d.id ∈ s.frames.map (·.definition.id) := by
    rw [h.status.mem_iff, mem_append]
  have hdone : s.isDone d ↔ d.id ∈ s.done := by simp [State.isDone]
  have hactive : s.isActive d ↔ d.id ∈ s.frames.map (·.definition.id) := by
    simp [State.isActive]
  rw [hdone, hactive, ← hstatus]
  constructor
  · intro hmem
    exact mem_map_of_mem hmem
  · intro hmem
    obtain ⟨e, he, hid⟩ := mem_map.mp hmem
    exact hD.definition_eq (h.subset he) hd hid ▸ he

/-- The numbers of definitions that are done and of those being sized are different. -/
theorem nodup_status (hD : Domain c D) : (s.done ++ s.frames.map (·.definition.id)).Nodup := by
  refine h.status.nodup_iff.mp (Nodup.map_on ?_ h.nodup)
  intro d hd e he
  exact hD.definition_eq (h.subset hd) (h.subset he)

/-- A definition that is being sized is not done. -/
theorem not_done_of_framed (hD : Domain c D) (hf : f ∈ s.frames) : f.definition.id ∉ s.done :=
  fun hdone => (List.nodup_append.mp (h.nodup_status hD)).2.2 _ hdone _ (mem_map_of_mem hf) rfl

/-- The boxes of opened definitions are boxes of the domain. -/
theorem mem_boxes (hb : b ∈ settled ++ s.frames.flatMap (Frame.remaining c)) : b ∈ D.flatMap (bodyBoxes c) := by
  obtain ⟨d, hd, hbd⟩ := mem_flatMap.mp (h.account.mem_iff.mp hb)
  exact mem_flatMap.mpr ⟨d, h.subset hd, hbd⟩

/-- The boxes of opened definitions have different numbers. -/
theorem nodup_account (hD : Domain c D) : ((settled ++ s.frames.flatMap (Frame.remaining c)).map Box.id).Nodup := by
  have hsub : opened.Subperm D := subperm_of_subset h.nodup h.subset
  obtain ⟨l, hperm, hsublist⟩ := hsub
  have hboxes : (l.flatMap (bodyBoxes c)).Sublist (D.flatMap (bodyBoxes c)) := hsublist.flatMap _
  have hnodup := (hboxes.map Box.id).nodup hD.nodup_boxes
  have hpermutation := ((hperm.flatMap_right (bodyBoxes c)).trans h.account.symm).map Box.id
  exact hpermutation.nodup_iff.mp hnodup

/-- The number of a box that is not settled is new: boxes of opened definitions have different numbers. -/
theorem not_settled_of_remaining (hD : Domain c D)
    (hb : b ∈ s.frames.flatMap (Frame.remaining c)) : b.id ∉ settled.map Box.id := by
  have hnodup := h.nodup_account hD
  rw [map_append] at hnodup
  intro hmem
  exact (List.nodup_append.mp hnodup).2.2 b.id hmem b.id (mem_map_of_mem hb) rfl

/-- No definition that is done has the number of a box. -/
theorem box_not_done (hD : Domain c D) (hb : b ∈ D.flatMap (bodyBoxes c)) : b.id ∉ s.done := by
  intro hdone
  have hmem : b.id ∈ opened.map (·.id) := h.status.mem_iff.mpr (mem_append_left _ hdone)
  obtain ⟨d, hd, hid⟩ := mem_map.mp hmem
  exact hD.box_ne_definition (h.subset hd) hb hid.symm

/-- No settled box has the number of a definition. -/
theorem definition_not_settled (hD : Domain c D) (hd : d ∈ D) : d.id ∉ settled.map Box.id := by
  intro hmem
  obtain ⟨b, hb, hid⟩ := mem_map.mp hmem
  exact hD.box_ne_definition hd (h.mem_boxes (mem_append_left _ hb)) hid

/-- A box that the machine is about to settle belongs to the definition of its frame. -/
theorem mem_bodyBoxes (hframes : s.frames = ⟨d, (b, true) :: rest⟩ :: below) :
    d ∈ opened ∧ b ∈ bodyBoxes c d ∧ b ∈ s.frames.flatMap (Frame.remaining c)
      ∧ ∀ x ∈ operands c b, x ∈ settled := by
  obtain ⟨hd, hsound⟩ := h.framed ⟨d, (b, true) :: rest⟩ (by simp [hframes])
  have hremaining : b ∈ Frame.remaining c ⟨d, (b, true) :: rest⟩ := by simp [Frame.remaining, pendingBoxes]
  refine ⟨hd, hsound.own hremaining, ?_, hsound.disciplined.1 rfl⟩
  rw [hframes]
  exact mem_flatMap.mpr ⟨_, mem_cons_self, hremaining⟩

/-! ### Opening and closing definitions -/

/-- A definition that was not opened can be opened. -/
theorem openDefinition (hd : d ∈ D) (hnot : d ∉ opened) : Course c D (d :: opened) settled (s.openDefinition d)
      ∧ progress opened settled s < progress (d :: opened) settled (s.openDefinition d) := by
  have hsubset : d :: opened ⊆ D := cons_subset.mpr ⟨hd, h.subset⟩
  have hnodup : (d :: opened).Nodup := nodup_cons.mpr ⟨hnot, h.nodup⟩
  have hlocals : ∀ mark body locals, Box.block mark body locals ∈ settled → locals ⊆ d :: opened :=
    fun mark body locals hmem => subset_cons_of_subset d (h.locals mark body locals hmem)
  have hframed : ∀ f ∈ s.frames, f.definition ∈ d :: opened ∧ f.Sound c (· ∈ settled) :=
    fun f hf => ⟨mem_cons_of_mem _ (h.framed f hf).1, (h.framed f hf).2⟩
  unfold State.openDefinition
  cases hbody : d.validBody? with
  | none =>
    refine ⟨⟨hsubset, hnodup, h.status.cons _, hframed, ?_, hlocals⟩, ?_⟩
    · rw [flatMap_cons, bodyBoxes_of_none hbody]
      exact h.account
    · simp only [progress, length_cons]
      omega
  | some body =>
    -- The new frame stands for all boxes of the definition.
    have hremaining : Frame.remaining c ⟨d, [(body, false)]⟩ = bodyBoxes c d := by
      rw [bodyBoxes_of_some hbody]
      simp [Frame.remaining, pendingBoxes]
    have hframe : (⟨d, [(body, false)]⟩ : Frame).Sound c (· ∈ settled) := by
      refine ⟨⟨body, hbody, .inr mem_cons_self⟩, ⟨?_, trivial⟩, hremaining ▸ List.Subset.refl _⟩
      exact fun hready => absurd hready Bool.false_ne_true
    refine ⟨⟨hsubset, hnodup, (h.status.cons _).trans perm_middle.symm, ?_, ?_, hlocals⟩, ?_⟩
    · intro f hf
      rcases mem_cons.mp hf with rfl | hf
      · exact ⟨mem_cons_self, hframe⟩
      · exact hframed f hf
    · rw [flatMap_cons, flatMap_cons, hremaining]
      exact (perm_append_comm_assoc _ _ _).trans (h.account.append_left _)
    · simp only [progress, length_cons, flatMap_cons, singleton_append, countP_cons,
        Bool.false_eq_true, if_false]
      omega

end

/-- Closing a definition takes its frame away. -/
theorem frames_closeDefinition (s : State) (d : Definition) :
    (s.closeDefinition d).frames = s.frames.tail ∧ (s.closeDefinition d).done = d.id :: s.done
      ∧ (s.closeDefinition d).findings = s.findings ∧ (s.closeDefinition d).delayFree = s.delayFree
      ∧ (s.closeDefinition d).fault = s.fault := by
  unfold State.closeDefinition
  dsimp only
  split
  · exact ⟨rfl, rfl, rfl, rfl, rfl⟩
  · exact ⟨rfl, rfl, rfl, rfl, rfl⟩

variable (h : Course c D opened settled s)

include h

/-- A definition without pending boxes can be closed. -/
theorem closeDefinition (hframes : s.frames = ⟨d, []⟩ :: below) : Course c D opened settled (s.closeDefinition d)
      ∧ progress opened settled s < progress opened settled (s.closeDefinition d) := by
  obtain ⟨hframes', hdone', -⟩ := frames_closeDefinition s d
  have hstatus := h.status
  have haccount := h.account
  rw [hframes] at hstatus haccount hframes'
  refine ⟨⟨h.subset, h.nodup, ?_, ?_, ?_, h.locals⟩, ?_⟩
  · rw [hdone', hframes']
    exact hstatus.trans perm_middle
  · intro f hf
    rw [hframes'] at hf
    exact h.framed f (by rw [hframes]; exact mem_cons_of_mem _ hf)
  · rw [hframes']
    exact haccount
  · simp only [progress, hframes', hdone', hframes, length_cons, flatMap_cons, nil_append,
      tail_cons]
    omega

/-- All boxes of a definition that is done are settled. -/
theorem settled_of_done (hD : Domain c D) (hd : d ∈ opened) (hdone : d.id ∈ s.done) : bodyBoxes c d ⊆ settled := by
  intro b hb
  rcases mem_append.mp (h.account.mem_iff.mpr (mem_flatMap.mpr ⟨d, hd, hb⟩)) with hmem | hmem
  · exact hmem
  · -- A box that is not settled stands in the frame of its definition, which is being sized.
    obtain ⟨f, hf, hbf⟩ := mem_flatMap.mp hmem
    obtain ⟨hopened, hsound⟩ := h.framed f hf
    obtain rfl : f.definition = d := hD.owner_eq (h.subset hopened) (h.subset hd) (hsound.own hbf) hb
    exact absurd hdone (h.not_done_of_framed hD hf)

/-! ### Preparing and settling boxes -/

/-- A box that is not ready becomes ready behind its operands. -/
theorem prepare (hframes : s.frames = ⟨d, (b, false) :: rest⟩ :: below) :
    let todo := (operands c b).map fun part => (part, false)
    let s' := { s with frames := ⟨d, todo ++ (b, true) :: rest⟩ :: below }
    Course c D opened settled s' ∧ progress opened settled s < progress opened settled s' := by
  intro todo s'
  obtain ⟨hd, hsound⟩ := h.framed ⟨d, (b, false) :: rest⟩ (by simp [hframes])
  obtain ⟨body, hbody, hpending⟩ := hsound.body
  have htodo : todo.flatMap (pendingBoxes c) = (operands c b).flatMap (boxesIn c) := by
    simp only [todo, flatMap_map]
    rfl
  -- The box stood for all that is sized with it. Now its operands stand for the part below it.
  have hremaining : (Frame.remaining c ⟨d, (b, false) :: rest⟩).Perm
      (Frame.remaining c ⟨d, todo ++ (b, true) :: rest⟩) := by
    simp only [Frame.remaining, flatMap_append, flatMap_cons, htodo, pendingBoxes]
    rw [boxesIn_eq b]
    exact perm_middle.symm
  have hframe : (⟨d, todo ++ (b, true) :: rest⟩ : Frame).Sound c (· ∈ settled) := by
    refine ⟨⟨body, hbody, hpending.imp_right ?_⟩, Disciplined.of_operands _ ⟨fun _ x hx => .inl hx, ?_⟩, ?_⟩
    · intro hmem
      simp only [map_append, mem_append, map_cons]
      exact .inr hmem
    · exact hsound.disciplined.2.mono fun x hx => hx.imp_right .inr
    · exact List.Subset.trans hremaining.symm.subset hsound.own
  have hstatus := h.status
  have haccount := h.account
  rw [hframes] at hstatus haccount
  refine ⟨⟨h.subset, h.nodup, hstatus, ?_, ?_, h.locals⟩, ?_⟩
  · intro f hf
    rcases mem_cons.mp hf with rfl | hf
    · exact ⟨hd, hframe⟩
    · exact h.framed f (by simp [hframes, hf])
  · refine Perm.trans ?_ haccount
    exact (hremaining.symm.append_right _).append_left _
  · have hready : todo.countP (·.2) = 0 := by
      simp [todo, countP_eq_zero]
    simp only [progress, s', hframes, flatMap_cons, countP_append, countP_cons, hready,
      Bool.false_eq_true, if_false, if_true]
    omega

/-- A ready box whose needed definitions were opened can be settled. -/
theorem settle (hD : Domain c D)
    (hframes : s.frames = ⟨d, (b, true) :: rest⟩ :: below) (hneeded : nextNeeded? c s b = none) {s' : State}
    (hframes' : s'.frames = ⟨d, rest⟩ :: below) (hdone' : s'.done = s.done) :
    Course c D opened (settled ++ [b]) s' ∧ progress opened settled s < progress opened (settled ++ [b]) s' := by
  obtain ⟨hd, hsound⟩ := h.framed ⟨d, (b, true) :: rest⟩ (by simp [hframes])
  obtain ⟨-, hbody, -, -⟩ := h.mem_bodyBoxes hframes
  have hstatus := h.status
  have haccount := h.account
  rw [hframes] at hstatus haccount
  have hsettled : ∀ x, x ∈ settled → x ∈ settled ++ [b] := fun x hx => mem_append_left _ hx
  refine ⟨⟨h.subset, h.nodup, ?_, ?_, ?_, ?_⟩, ?_⟩
  · rw [hdone', hframes']
    exact hstatus
  · intro f hf
    rw [hframes'] at hf
    rcases mem_cons.mp hf with rfl | hf
    · exact ⟨hd, hsound.settle (by simp) hsettled⟩
    · obtain ⟨hopened, hsound'⟩ := h.framed f (by simp [hframes, hf])
      exact ⟨hopened, hsound'.mono hsettled⟩
  · rw [hframes', List.append_assoc]
    exact haccount
  · intro mark body locals hmem
    rcases mem_append.mp hmem with hmem | hmem
    · exact h.locals mark body locals hmem
    · -- A block is settled when its local definitions are done or being sized, so they were opened.
      obtain rfl : Box.block mark body locals = b := mem_singleton.mp hmem
      intro e he
      have heD := hD.locals d (h.subset hd) mark body locals hbody he
      exact (h.mem_opened_iff hD heD).mpr (done_or_active_of_nextNeeded? hneeded he)
  · simp only [progress, hframes', hdone', hframes, length_append, length_singleton,
      flatMap_cons, countP_append, countP_cons, if_true]
    omega

end Course

variable {opened : List Definition} {settled : List Box}

/-! ## Steps -/

/-- Entering a dimension changes nothing else. -/
theorem enter_eq (s : State) (b : Box) (dim : Option Dimension) :
    (s.enter b dim).frames = s.frames ∧ (s.enter b dim).done = s.done
      ∧ (s.enter b dim).findings = s.findings ∧ (s.enter b dim).delayFree = s.delayFree
      ∧ (s.enter b dim).fault = s.fault := by
  cases dim with
  | none | some d => exact ⟨rfl, rfl, rfl, rfl, rfl⟩

theorem mem_of_nextNeeded? (h : nextNeeded? c s b = some d) :
    d ∈ needs c s b ∧ s.isDone d = false ∧ s.isActive d = false := by
  have hpredicate := find?_some h
  rw [Bool.and_eq_true, Bool.not_eq_true', Bool.not_eq_true'] at hpredicate
  exact ⟨mem_of_find?_eq_some h, hpredicate.1, hpredicate.2⟩

/-- Opening a definition adds no finding and does not stop the machine. -/
theorem openDefinition_eq (s : State) (d : Definition) :
    (s.openDefinition d).findings = s.findings ∧ (s.openDefinition d).fault = s.fault
      ∧ (s.openDefinition d).dims = s.dims ∧ (s.openDefinition d).delayFree = s.delayFree := by
  unfold State.openDefinition
  split
  · exact ⟨rfl, rfl, rfl, rfl⟩
  · exact ⟨rfl, rfl, rfl, rfl⟩

/-! ## The end -/

/-- Each ready box is one of those that a list of pending boxes stands for. -/
theorem countP_ready_le (c : Context) (entries : List (Box × Bool)) :
    entries.countP (·.2) ≤ (entries.flatMap (pendingBoxes c)).length := by
  induction entries with
  | nil => exact Nat.le_refl 0
  | cons entry rest ih =>
    obtain ⟨b, ready⟩ := entry
    rw [flatMap_cons, length_append, countP_cons]
    cases ready with
    | true =>
      rw [pendingBoxes, length_singleton, if_pos rfl]
      omega
    | false =>
      rw [if_neg Bool.false_ne_true]
      omega

/-- There is no more progress than two for each number. -/
theorem Course.progress_le (h : Course c D opened settled s) :
    progress opened settled s ≤ 2 * (D.flatMap (numbers c)).length := by
  have hready : (s.frames.flatMap (·.pending)).countP (·.2)
      ≤ (s.frames.flatMap (Frame.remaining c)).length := by
    have hle := countP_ready_le c (s.frames.flatMap (·.pending))
    rw [flatMap_assoc] at hle
    exact hle
  have haccount := h.account.length_eq
  have hstatus := h.status.length_eq
  have hnumbers := (perm_numbers c D).length_eq
  obtain ⟨l, hperm, hsublist⟩ := subperm_of_subset h.nodup h.subset
  have hopened : opened.length ≤ D.length := hperm.length_eq ▸ hsublist.length_le
  have hboxes : (opened.flatMap (bodyBoxes c)).length ≤ (D.flatMap (bodyBoxes c)).length := by
    rw [← (hperm.flatMap_right (bodyBoxes c)).length_eq]
    exact (hsublist.flatMap _).length_le
  simp only [length_append, length_map] at haccount hstatus hnumbers
  unfold progress
  omega

end Patchbay.Sizing
