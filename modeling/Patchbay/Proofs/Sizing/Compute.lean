import Mathlib.Data.List.TakeWhile
import Patchbay.Proofs.Sizing.References

/-!
# One box is sized by its rule

Sizing a box does one of a few things (`Sizes`). When the operands of the box are sized and no definition that it needs
is left to be sized, it finds the outcome that the rule of the box gives, unless a cycle is reported or the machine
stops. Apart from findings and from what it remembers about delays it changes nothing.
-/

open List

namespace Patchbay.Sizing

variable {c : Context} {s s' : State} {found : List Finding}

/-- No cycle among findings. -/
def NoCycle (findings : List Finding) : Prop :=
  ∀ f ∈ findings, ∀ names site, f.issue ≠ .circularDefinition names site

theorem NoCycle.of_subset {findings findings' : List Finding} (h : NoCycle findings')
    (hsub : findings ⊆ findings') : NoCycle findings :=
  fun f hf => h f (hsub hf)

/-- What the machine knows about boxes. -/
def knownBox (s : State) (b : Box) : Option (Option Dimension) := some (s.dim? b)

/-- What the machine knows about definitions. -/
def knownDefinition (s : State) (d : Definition) : Option (Option Dimension) :=
  if s.isDone d then some (s.dims.get? d.id) else none

/-! ## What a box asks for -/

variable {b : Box} {mark : Mark} {name : String} {args : List Box} {d : Definition}

/-- Issues that sizing reports. No composition in parallel fails, a cycle has a member, and the number of arguments that
is expected is the one that the primitive states. -/
def Reported (c : Context) : Issue → Prop
  | .circularDefinition cycle _ => cycle ≠ []
  | .badComposition op _ _ => op ≠ .par
  | .argumentCount name expected _ => (c.primitives.get? name).bind (·.uiArgs) = some expected
  | .tooManySignals _ _ _ => True
  | .badChain _ => True
  | .feedbackWithoutDelay => True
  | _ => False

/-- A definition that is asked for closes a cycle if it is being sized and not done. -/
def State.Closes (s : State) (d : Definition) : Prop := s.isDone d = false ∧ s.isActive d = true

/-- A call of a user-interface box stops the machine if it passes for a group although it has no content. -/
def UiHalts (c : Context) (name : String) (args : List Box) : Prop :=
  (∀ expected, (c.primitives.get? name).bind (·.uiArgs) = some expected → (args.length : Int) = expected)
    ∧ groups.contains name = true ∧ args.length < 2

/-- An iteration stops the machine if its body has a dimension and its count is positive infinity or no number. -/
def IterationHalts (c : Context) (count : Box) (body : Option Dimension) : Prop :=
  body.isSome = true ∧ ∃ value, c.resolution.constant? count = some value
    ∧ value.lt (.finite false 0) = false ∧ value.isFinite = false

/-- When a box stops the machine, given the dimensions of its operands. -/
def Halts (c : Context) (dim? : Box → Option Dimension) (b : Box) : Prop :=
  b.invalid = false ∧
    match b with
    | .call mark name args =>
      ∃ symbol, c.resolution.symbol? mark.id = some symbol ∧
        match iterationParts? c mark.id name args with
        | some (count, body) => IterationHalts c count (dim? body)
        | none => symbol.kind = .ui ∧ UiHalts c name args
    | _ => False

/-- The head of an iteration is a primitive, and no definition. -/
theorem userDefinition?_of_iterationParts? {id : Nat} {parts : Box × Box}
    (h : iterationParts? c id name args = some parts) : c.resolution.userDefinition? id = none := by
  unfold iterationParts? at h
  split at h
  · split at h
    · rename_i hprimitive
      rw [Bool.and_eq_true] at hprimitive
      unfold Resolution.userDefinition?
      cases hsymbol : c.resolution.symbol? id with
      | none => rfl
      | some symbol =>
        have hkind : symbol.kind = .primitive := by simpa [hsymbol] using hprimitive.2
        simp [hkind]
    · simp at h
  · simp at h

/-- The definitions that a box asks for, given the dimensions of its operands. -/
def Demands (c : Context) (dim? : Box → Option Dimension) : Box → Definition → Prop
  | .block _ _ locals, d => d ∈ locals
  | .ref mark _, d => c.resolution.userDefinition? mark.id = some d
  | .call mark _ args, d =>
    (∀ a ∈ args, (dim? a).isSome = true) ∧ c.resolution.userDefinition? mark.id = some d
  | _, _ => False

/-- A box needs the definitions that it asks for. -/
theorem mem_needs_iff : d ∈ needs c s b ↔ Demands c s.dim? b d := by
  cases b with
  | ref mark name => simp [needs, Demands]
  | block mark body locals => exact Iff.rfl
  | number | string | compose => simp [needs, Demands]
  | call mark name args =>
    rw [needs, Demands]
    cases hany : args.any fun a => (s.dim? a).isNone with
    | true =>
      obtain ⟨a, ha, hnone⟩ := any_eq_true.mp hany
      rw [if_pos rfl]
      refine iff_of_false not_mem_nil ?_
      rintro ⟨hargs, -⟩
      have hsome := hargs a ha
      rw [Option.isNone_iff_eq_none] at hnone
      simp [hnone] at hsome
    | false =>
      rw [if_neg Bool.false_ne_true, Option.mem_toList]
      refine (and_iff_right ?_).symm
      intro a ha
      have hnot := any_eq_false.mp hany a ha
      simpa [Option.isSome_iff_ne_none] using hnot

/-- A box that stops the machine asks for no definition. -/
theorem not_demands_of_halts {dim? : Box → Option Dimension} (h : Halts c dim? b) : ¬ Demands c dim? b d := by
  obtain ⟨-, h⟩ := h
  cases b with
  | ref | number | string | compose | block => exact h.elim
  | call mark name args =>
    rintro ⟨-, hd⟩
    obtain ⟨symbol, hsymbol, h⟩ := h
    split at h
    · rename_i hparts
      simp [userDefinition?_of_iterationParts? hparts] at hd
    · obtain ⟨_, hsymbol', hkind, -⟩ := userDefinition?_eq_some_iff.mp hd
      obtain rfl := Option.some.inj (hsymbol.symm.trans hsymbol')
      exact absurd h.1 (by simp [hkind])

/-- The definitions that a box asks for are done or being sized. -/
def Ready (c : Context) (s : State) (b : Box) : Prop :=
  ∀ d, Demands c s.dim? b d → s.isDone d = true ∨ s.isActive d = true

/-- The definitions that a box needs are done or being sized when none is left to be opened. -/
theorem done_or_active_of_nextNeeded? (h : nextNeeded? c s b = none) (hd : d ∈ needs c s b) :
    s.isDone d ∨ s.isActive d := by
  have hnot := find?_eq_none.mp h d hd
  cases hdone : s.isDone d with
  | true => exact .inl rfl
  | false =>
    cases hactive : s.isActive d with
    | true => exact .inr rfl
    | false => exact absurd (by simp [hdone, hactive]) hnot

/-- A box that does not stop the machine and asks for no definition that closes a cycle. -/
structure Calm (c : Context) (s : State) (b : Box) : Prop where
  goes : ¬ Halts c s.dim? b
  acyclic : b.invalid = false → ∀ d, Demands c s.dim? b d → ¬ s.Closes d

/-! ## What sizing a box does -/

/-- The outcome that the rule of a box gives from what the machine knows. -/
noncomputable def known (c : Context) (s : State) (b : Box) : Option Outcome :=
  rule c (knownBox s) (knownDefinition s) b

/-- What sizing a box does: it finds the outcome of its rule, or a definition that it asks for closes a cycle, or it
stops the machine. A feedback is searched for delays, and a block asks for its definitions. -/
inductive Sizes (c : Context) (s : State) (b : Box) : Option Dimension × State → Prop where
  | silent {dim : Option Dimension} (h : Calm c s b) (hrule : Ready c s b → known c s b = some (.silent dim)) :
      Sizes c s b (dim, s)
  | mistake {issue : Issue} (h : Calm c s b) (hrule : Ready c s b → known c s b = some (.failed b.position issue))
      (hreported : Reported c issue) (hkind : issue.kind = .dimension)
      (hnamed : ∀ name ∈ issue.named?, name ∈ b.name?) : Sizes c s b (none, s.report b.position issue)
  | scan {mark : Mark} {left right : Box} {dim : Dimension} (hb : b = .compose mark .recur left right)
      (hyes : Delay.Contains c.resolution right → known c s b = some (.silent (some dim)))
      (hno : ¬ Delay.Contains c.resolution right →
        known c s b = some ⟨some dim, [⟨b.position, .feedbackWithoutDelay⟩]⟩) :
      Sizes c s b (some dim, if (Delay.scan c.resolution s.delayFree right).1
        then { s with delayFree := (Delay.scan c.resolution s.delayFree right).2 }
        else { s with delayFree := (Delay.scan c.resolution s.delayFree right).2 }.report b.position
          .feedbackWithoutDelay)
  | cycle {e : Definition} (hvalid : b.invalid = false) (hreferred : Delay.referred? c.resolution b = some e)
      (hdemands : Demands c s.dim? b e) (hcloses : s.Closes e) : Sizes c s b (none, s.reportCycle e b.position)
  | locals {mark : Mark} {body : Box} {locals : List Definition} (hvalid : b.invalid = false)
      (hb : b = .block mark body locals) : Sizes c s b ((askLocals locals s).dim? body, askLocals locals s)
  | stop {fault : Fault} (h : Halts c s.dim? b) : Sizes c s b (none, { s with fault := some fault })

/-- A name that stands for a definition asks for it. -/
theorem sizeReference_of_some (huser : c.resolution.userDefinition? mark.id = some d) (s : State) :
    sizeReference c s mark = s.askDefinition d mark.position
      ∧ referenceRule c (knownDefinition s) mark = knownDefinition s d := by
  obtain ⟨symbol, hsymbol, hkind, hd⟩ := userDefinition?_eq_some_iff.mp huser
  rw [sizeReference, referenceRule, hsymbol]
  dsimp only
  rw [hkind, hd]
  exact ⟨rfl, rfl⟩

theorem sizeReference_of_none (huser : c.resolution.userDefinition? mark.id = none) (s : State) :
    ∃ dim, sizeReference c s mark = (dim, s) ∧ referenceRule c (knownDefinition s) mark = some dim := by
  unfold sizeReference referenceRule
  cases hsymbol : c.resolution.symbol? mark.id with
  | none => exact ⟨none, rfl, rfl⟩
  | some symbol =>
    dsimp only
    cases hkind : symbol.kind with
    | userDefined =>
      cases hd : symbol.definition with
      | none => exact ⟨_, rfl, rfl⟩
      | some d => exact absurd (userDefinition?_eq_some_iff.mpr ⟨symbol, hsymbol, hkind, hd⟩) (by simp [huser])
    | primitive | imported | parameter | ui => exact ⟨_, rfl, rfl⟩

/-- Asking for what a name stands for gives what its rule gives, unless that is being sized. -/
theorem sizeReference_cases (c : Context) (s : State) (mark : Mark) :
    (∃ dim, sizeReference c s mark = (dim, s)
      ∧ (∀ e, c.resolution.userDefinition? mark.id = some e → ¬ s.Closes e)
      ∧ ((∀ e, c.resolution.userDefinition? mark.id = some e → s.isDone e ∨ s.isActive e) →
        referenceRule c (knownDefinition s) mark = some dim))
      ∨ ∃ e, c.resolution.userDefinition? mark.id = some e ∧ s.Closes e
        ∧ sizeReference c s mark = (none, s.reportCycle e mark.position) := by
  cases huser : c.resolution.userDefinition? mark.id with
  | none =>
    obtain ⟨dim, hsize, hrule⟩ := sizeReference_of_none huser s
    exact .inl ⟨dim, hsize, by simp, fun _ => hrule⟩
  | some e =>
    obtain ⟨hask, hrule⟩ := sizeReference_of_some huser s
    rw [hask, hrule, State.askDefinition, knownDefinition]
    cases hdone : s.isDone e with
    | true => exact .inl ⟨_, rfl, by simp [State.Closes, hdone], fun _ => rfl⟩
    | false =>
      cases hactive : s.isActive e with
      | true => exact .inr ⟨e, rfl, ⟨hdone, hactive⟩, rfl⟩
      | false =>
        exact .inl ⟨none, rfl, by simp [State.Closes, hactive], fun h => absurd (h e rfl) (by simp [hdone, hactive])⟩

theorem sizes_reference (s : State) (name : String) (hvalid : mark.invalid = false) :
    Sizes c s (.ref mark name) (sizeReference c s mark) := by
  rcases sizeReference_cases c s mark with ⟨dim, hsame, hcalm, hrule⟩ | ⟨e, he, hcloses, hcycle⟩
  · rw [hsame]
    refine .silent ⟨fun h => h.2, fun _ => hcalm⟩ fun hready => ?_
    rw [known, rule, if_neg (by simp [Box.invalid, Box.mark, hvalid]), hrule hready]
    rfl
  · rw [hcycle]
    exact .cycle hvalid he he hcloses

theorem sizes_composition (s : State) (op : Operator) (left right : Box) (hvalid : mark.invalid = false) :
    Sizes c s (.compose mark op left right) (sizeComposition c s mark op left right) := by
  have hcalm : Calm c s (.compose mark op left right) := ⟨fun h => h.2, fun _ _ h => h.elim⟩
  have hrule : known c s (.compose mark op left right)
      = some (compositionRule c mark op right (s.dim? left) (s.dim? right)) := by
    rw [known, rule, if_neg (by simp [Box.invalid, Box.mark, hvalid])]
    rfl
  unfold sizeComposition
  cases hleft : s.dim? left with
  | none => exact .silent hcalm fun _ => by rw [hrule, hleft]; rfl
  | some a =>
    cases hright : s.dim? right with
    | none => exact .silent hcalm fun _ => by rw [hrule, hleft, hright]; rfl
    | some b =>
      rw [hleft, hright, compositionRule] at hrule
      by_cases hparameter : op ≠ .par ∧ isParameter c right
      · rw [if_pos hparameter] at hrule
        simp only [hparameter, ne_eq, not_false_eq_true, decide_true, Bool.and_self, if_true]
        exact .silent hcalm fun _ => hrule
      · have hguard : (decide (op ≠ .par) && isParameter c right) = false := by simpa using hparameter
        rw [if_neg hparameter] at hrule
        simp only [hguard, Bool.false_eq_true, if_false]
        cases hcompose : Dimension.compose op a b with
        | none =>
          rw [hcompose] at hrule
          refine .mistake hcalm (fun _ => hrule) ?_ rfl (by simp [Issue.named?])
          -- Boxes side by side always fit.
          rintro rfl
          simp [Dimension.compose] at hcompose
        | some result =>
          rw [hcompose] at hrule
          by_cases hrecur : op = .recur
          · subst hrecur
            refine .scan rfl (fun h => hrule.trans ?_) fun h => hrule.trans ?_
            · simp [h]
            · simp [h, Box.position, Box.mark]
          · simp only [hrecur, if_false]
            exact .silent hcalm fun _ => by simpa [hrecur] using hrule

theorem mapM_knownBox (args : List Box) : args.mapM (knownBox s) = some (args.map s.dim?) := by
  induction args with
  | nil => rfl
  | cons first rest ih =>
    rw [mapM_cons, ih]
    rfl

theorem mapM_id_map (args : List Box) : (args.map s.dim?).mapM id = args.mapM s.dim? := by
  induction args with
  | nil => rfl
  | cons first rest ih => rw [map_cons, mapM_cons, mapM_cons, ih, id]

theorem isSome_of_mapM {dims : List Dimension} (h : args.mapM s.dim? = some dims) :
    ∀ a ∈ args, (s.dim? a).isSome := by
  induction args generalizing dims with
  | nil => exact fun a ha => absurd ha not_mem_nil
  | cons first rest ih =>
    rw [mapM_cons] at h
    obtain ⟨dim, hdim, h⟩ := Option.bind_eq_some_iff.mp h
    obtain ⟨dims', hdims, -⟩ := Option.bind_eq_some_iff.mp h
    intro a ha
    rcases mem_cons.mp ha with rfl | ha
    · rw [hdim]
      rfl
    · exact ih hdims a ha

/-- The arguments of a call are all known or one of them is not. -/
theorem mapM_dim?_eq_none (h : args.mapM s.dim? = none) : ∃ a ∈ args, (s.dim? a).isSome = false := by
  induction args with
  | nil => simp at h
  | cons first rest ih =>
    rw [mapM_cons] at h
    cases hfirst : s.dim? first with
    | none => exact ⟨first, mem_cons_self, by simp [hfirst]⟩
    | some dim =>
      cases hrest : rest.mapM s.dim? with
      | none =>
        obtain ⟨a, ha, hnone⟩ := ih hrest
        exact ⟨a, mem_cons_of_mem _ ha, hnone⟩
      | some dims => simp [hfirst, hrest] at h

/-- The head of a call is asked for only when all arguments are known. -/
theorem sizes_call (hvalid : mark.invalid = false) (hgoes : ¬ Halts c s.dim? (.call mark name args))
    (hrule : known c s (.call mark name args) = ordinaryRule c (knownDefinition s) mark name (args.map s.dim?)) :
    Sizes c s (.call mark name args) (sizeCall c s mark name args) := by
  rw [ordinaryRule, mapM_id_map] at hrule
  unfold sizeCall
  cases hdims : args.mapM s.dim? with
  | none =>
    obtain ⟨a, ha, hnone⟩ := mapM_dim?_eq_none hdims
    rw [hdims] at hrule
    exact .silent ⟨hgoes, fun _ d hd => absurd (hd.1 a ha) (by simp [hnone])⟩ fun _ => hrule
  | some dims =>
    rw [hdims] at hrule
    rcases sizeReference_cases c s mark with ⟨dim, hsame, hhead, hhead'⟩ | ⟨e, he, hcloses, hcycle⟩
    · have hcalm : Calm c s (.call mark name args) := ⟨hgoes, fun _ d hd => hhead d hd.2⟩
      have hready (h : Ready c s (.call mark name args)) := hhead' fun e he => h e ⟨isSome_of_mapM hdims, he⟩
      rw [hsame]
      cases dim with
      | none => exact .silent hcalm fun h => by rw [hrule]; simp [hready h]
      | some callee =>
        have hcall (h : Ready c s (.call mark name args)) :
            known c s (.call mark name args) = some (callRule mark name callee dims) := by
          rw [hrule]
          simp [hready h]
        unfold callRule at hcall
        dsimp only
        split
        · rename_i hdim
          exact .silent hcalm fun h => by rw [hcall h, hdim]
        · rename_i hdim
          exact .mistake hcalm (fun h => by rw [hcall h, hdim]; rfl) trivial rfl fun _ h => h
    · rw [hcycle]
      exact .cycle hvalid he ⟨isSome_of_mapM hdims, he⟩ hcloses

/-- A call that asks for no definition is calm unless it stops the machine. -/
theorem calm_of_not_halts (hgoes : ¬ Halts c s.dim? (.call mark name args))
    (huser : c.resolution.userDefinition? mark.id = none) : Calm c s (.call mark name args) :=
  ⟨hgoes, fun _ d hd => absurd hd.2 (by simp [huser])⟩

theorem sizes_uiCall (huser : c.resolution.userDefinition? mark.id = none)
    (hhalts : Halts c s.dim? (.call mark name args) ↔ UiHalts c name args)
    (hrule : known c s (.call mark name args) = uiRule c (knownBox s) mark name args) :
    Sizes c s (.call mark name args) (sizeUiCall c s mark name args) := by
  have hcalm (h : ¬ UiHalts c name args) := calm_of_not_halts (fun hh => h (hhalts.mp hh)) huser
  have hcontent (hcount : ∀ expected, (c.primitives.get? name).bind (·.uiArgs) = some expected →
      (args.length : Int) = expected)
      (hrule : known c s (.call mark name args) = (contentRule (knownBox s) name args).map .silent) :
      Sizes c s (.call mark name args) (sizeUiCall.content s name args) := by
    unfold contentRule at hrule
    unfold sizeUiCall.content
    by_cases hgroup : groups.contains name
    · rw [if_pos hgroup] at hrule ⊢
      match args with
      -- A group without content stops the machine.
      | [] | [_] => exact .stop (hhalts.mpr ⟨hcount, hgroup, by simp⟩)
      | _ :: inner :: _ => exact .silent (hcalm fun h => absurd h.2.2 (by simp)) fun _ => hrule
    · have hcalm := hcalm fun h => hgroup h.2.1
      rw [if_neg hgroup] at hrule ⊢
      split
      · rename_i hbargraph
        exact .silent hcalm fun _ => by rw [hrule, if_pos hbargraph]; rfl
      · rename_i hbargraph
        rw [if_neg hbargraph] at hrule
        split
        · rename_i hcontrol
          exact .silent hcalm fun _ => by rw [hrule, if_pos hcontrol]; rfl
        · rename_i hcontrol
          exact .silent hcalm fun _ => by rw [hrule, if_neg hcontrol]; rfl
  unfold uiRule at hrule
  unfold sizeUiCall
  cases hexpected : (c.primitives.get? name).bind (·.uiArgs) with
  | none =>
    rw [hexpected] at hrule
    exact hcontent (by simp [hexpected]) hrule
  | some expected =>
    rw [hexpected] at hrule
    dsimp only at hrule ⊢
    by_cases hlength : (args.length : Int) ≠ expected
    · rw [if_pos hlength] at hrule ⊢
      exact .mistake (hcalm fun h => hlength (h.1 expected hexpected)) (fun _ => hrule) hexpected rfl fun _ h => h
    · rw [if_neg hlength] at hrule ⊢
      exact hcontent (fun _ h => by simpa [← Option.some.inj (hexpected.symm.trans h)] using hlength) hrule

theorem sizes_iteration (huser : c.resolution.userDefinition? mark.id = none) {count body : Box}
    (hhalts : Halts c s.dim? (.call mark name args) ↔ IterationHalts c count (s.dim? body))
    (hrule : known c s (.call mark name args) = some (iterationRule c mark name count (s.dim? body))) :
    Sizes c s (.call mark name args) (sizeIteration c s mark name count body) := by
  have hcalm (h : ¬ IterationHalts c count (s.dim? body)) := calm_of_not_halts (fun hh => h (hhalts.mp hh)) huser
  unfold IterationHalts at hcalm hhalts
  unfold iterationRule copies? at hrule
  unfold sizeIteration
  cases hbody : s.dim? body with
  | none => exact .silent (hcalm (by simp [hbody])) fun _ => by rw [hrule, hbody]
  | some dimension =>
    cases hconstant : c.resolution.constant? count with
    | none => exact .silent (hcalm (by simp [hconstant])) fun _ => by rw [hrule, hbody, hconstant]
    | some value =>
      rw [hbody, hconstant] at hrule
      dsimp only at hrule ⊢
      cases hnegative : value.lt (.finite false 0) with
      | true => exact .silent (hcalm (by simp [hconstant, hnegative])) fun _ => by simpa [hnegative] using hrule
      | false =>
        cases hfinite : value.isFinite with
        | false => exact .stop (hhalts.mpr (by simp [hbody, hconstant, hnegative, hfinite]))
        | true =>
          have hcalm := hcalm (by simp [hconstant, hfinite])
          simp only [hnegative, hfinite, Bool.false_eq_true, if_false, Bool.not_true, Bool.or_self] at hrule ⊢
          cases hint : value.toInt? with
          | none => exact .silent hcalm fun _ => by rw [hrule, hint]; rfl
          | some n =>
            rw [hint] at hrule
            dsimp only [Option.map_some] at hrule ⊢
            split
            · rename_i hdim
              exact .silent hcalm fun _ => by rw [hrule, hdim]
            · rename_i hdim
              exact .mistake hcalm (fun _ => by rw [hrule, hdim]; rfl) trivial rfl (by simp [Issue.named?])

theorem sizes_sizeBox (c : Context) (s : State) (b : Box) : Sizes c s b (sizeBox c s b) := by
  unfold sizeBox
  cases hinvalid : b.invalid with
  | true =>
    refine .silent ⟨fun h => ?_, fun h => ?_⟩ fun _ => if_pos hinvalid
    · exact absurd (hinvalid.symm.trans h.1) (by simp)
    · exact absurd (hinvalid.symm.trans h) (by simp)
  | false =>
    have hrule : known c s b = _ := if_neg (by simp [hinvalid])
    cases b with
    | number | string => exact .silent ⟨fun h => h.2, fun _ _ h => h.elim⟩ fun _ => hrule
    | ref mark name => exact sizes_reference s name hinvalid
    | compose mark op left right => exact sizes_composition s op left right hinvalid
    | block mark body locals => exact .locals hinvalid rfl
    | call mark name args =>
      dsimp only at hrule ⊢
      rw [if_neg Bool.false_ne_true]
      cases hsymbol : c.resolution.symbol? mark.id with
      | none =>
        rw [hsymbol] at hrule
        refine .silent (calm_of_not_halts (by simp [Halts, hsymbol]) ?_) fun _ => hrule
        rw [Resolution.userDefinition?, hsymbol]
      | some symbol =>
        have huser (hkind : symbol.kind ≠ .userDefined) : c.resolution.userDefinition? mark.id = none := by
          simp [Resolution.userDefinition?, hsymbol, hkind]
        rw [hsymbol] at hrule
        cases hparts : iterationParts? c mark.id name args with
        | some parts =>
          rw [hparts] at hrule
          have hhalts : Halts c s.dim? (.call mark name args) ↔ IterationHalts c parts.1 (s.dim? parts.2) := by
            simp [Halts, hinvalid, hsymbol, hparts]
          exact sizes_iteration (userDefinition?_of_iterationParts? hparts) hhalts hrule
        | none =>
          rw [hparts] at hrule
          dsimp only at hrule ⊢
          by_cases hui : symbol.kind = .ui
          · rw [if_pos hui] at hrule ⊢
            have hhalts : Halts c s.dim? (.call mark name args) ↔ UiHalts c name args := by
              simp [Halts, hinvalid, hsymbol, hparts, hui]
            exact sizes_uiCall (huser (by simp [hui])) hhalts hrule
          · rw [if_neg hui] at hrule ⊢
            have hgoes : ¬ Halts c s.dim? (.call mark name args) := by simp [Halts, hsymbol, hparts, hui]
            by_cases hparameter : symbol.kind = .parameter
            · rw [if_pos hparameter] at hrule ⊢
              exact .silent (calm_of_not_halts hgoes (huser (by simp [hparameter]))) fun _ => hrule
            · rw [if_neg hparameter, mapM_knownBox] at hrule
              rw [if_neg hparameter]
              exact sizes_call hinvalid hgoes hrule

/-! ## What sizing a box leaves as it is -/

/-- From one state to another at most findings are added and what is remembered about delays changes. The machine is
stopped under one condition, and a cycle is reported under another one. -/
structure Keeps (c : Context) (halts cyclic : Prop) (s s' : State) : Prop where
  dims : s'.dims = s.dims
  done : s'.done = s.done
  frames : s'.frames = s.frames
  findings : ∃ new, s'.findings = s.findings ++ new ∧ ∀ f ∈ new, Reported c f.issue
  fault : s.fault = none → (s'.fault = none ↔ ¬ halts)
  cycle : NoCycle s.findings → (NoCycle s'.findings ↔ ¬ cyclic)

namespace Keeps

variable {halts halts' cyclic cyclic' : Prop}

theorem refl (c : Context) (s : State) : Keeps c False False s s :=
  ⟨rfl, rfl, rfl, ⟨[], (append_nil _).symm, fun _ hf => absurd hf not_mem_nil⟩, fun h => by simp [h],
    fun h => by simp [h]⟩

theorem report (s : State) (position : Position) (issue : Issue) (h : Reported c issue) :
    Keeps c False (∃ names site, issue = .circularDefinition names site) s (s.report position issue) := by
  refine ⟨rfl, rfl, rfl, ⟨[⟨position, issue⟩], rfl, fun _ hf => mem_singleton.mp hf ▸ h⟩,
    fun h => by simp [State.report, h], ?_⟩
  intro hs
  constructor
  · rintro hcycle ⟨names, site, rfl⟩
    exact hcycle _ (mem_append_right _ mem_cons_self) names site rfl
  · intro hnot f hf names site heq
    rcases mem_append.mp hf with hf | hf
    · exact hs f hf names site heq
    · rw [mem_singleton.mp hf] at heq
      exact hnot ⟨names, site, heq⟩

/-- A state in which only the machine was stopped. -/
theorem stop (c : Context) (s : State) (fault : Fault) : Keeps c True False s { s with fault := some fault } :=
  ⟨rfl, rfl, rfl, (refl c s).findings, fun _ => by simp, (refl c s).cycle⟩

theorem congr (h : Keeps c halts cyclic s s') (hhalts : halts' ↔ halts) (hcyclic : cyclic' ↔ cyclic) :
    Keeps c halts' cyclic' s s' :=
  ⟨h.dims, h.done, h.frames, h.findings, fun hs => by rw [hhalts]; exact h.fault hs,
    fun hs => by rw [hcyclic]; exact h.cycle hs⟩

theorem subset (h : Keeps c halts cyclic s s') : s.findings ⊆ s'.findings := by
  obtain ⟨new, hnew, -⟩ := h.findings
  rw [hnew]
  exact subset_append_left _ _

theorem trans {s'' : State} (h : Keeps c False cyclic s s') (h' : Keeps c halts cyclic' s' s'') :
    Keeps c halts (cyclic ∨ cyclic') s s'' := by
  obtain ⟨new, hnew, hreported⟩ := h.findings
  obtain ⟨new', hnew', hreported'⟩ := h'.findings
  refine ⟨h'.dims.trans h.dims, h'.done.trans h.done, h'.frames.trans h.frames, ⟨new ++ new', ?_, ?_⟩, ?_, ?_⟩
  · rw [hnew', hnew, List.append_assoc]
  · intro f hf
    rcases mem_append.mp hf with hf | hf
    · exact hreported f hf
    · exact hreported' f hf
  · intro hs
    exact h'.fault ((h.fault hs).mpr not_false)
  · intro hs
    rw [not_or]
    constructor
    · intro hcycle
      have hmiddle := hcycle.of_subset h'.subset
      exact ⟨(h.cycle hs).mp hmiddle, (h'.cycle hmiddle).mp hcycle⟩
    · rintro ⟨hnot, hnot'⟩
      exact (h'.cycle ((h.cycle hs).mpr hnot)).mpr hnot'

end Keeps

/-- A definition that is being sized is one of those that make up the cycle it closes. -/
theorem cycleFrom_ne_nil (h : s.isActive d) : s.cycleFrom d ≠ [] := by
  obtain ⟨f, hf, hid⟩ := any_eq_true.mp h
  rw [State.cycleFrom, Ne, dropWhile_eq_nil_iff]
  intro hnone
  have hne := hnone f.definition (mem_reverse.mpr (mem_map_of_mem hf))
  simp [beq_iff_eq.mp hid] at hne

theorem keeps_askDefinition (c : Context) (s : State) (d : Definition) (position : Position) :
    Keeps c False (s.Closes d) s (s.askDefinition d position).2 := by
  unfold State.askDefinition State.Closes
  by_cases hdone : s.isDone d
  · rw [if_pos hdone]
    exact (Keeps.refl c s).congr Iff.rfl (by simp [hdone])
  · rw [if_neg hdone]
    by_cases hactive : s.isActive d
    · rw [if_pos hactive]
      have hreport := Keeps.report s position (.circularDefinition ((s.cycleFrom d).map (·.name)) d.position)
        (by simpa [Reported] using cycleFrom_ne_nil hactive : Reported c _)
      exact hreport.congr Iff.rfl (by simp [hdone, hactive])
    · rw [if_neg hactive]
      exact (Keeps.refl c s).congr Iff.rfl (by simp [hactive])

theorem keeps_askLocals (c : Context) (locals : List Definition) (s : State) :
    Keeps c False (∃ d ∈ locals, s.Closes d) s (askLocals locals s) := by
  induction locals generalizing s with
  | nil => exact (Keeps.refl c s).congr Iff.rfl (by simp)
  | cons d rest ih =>
    have hfirst := keeps_askDefinition c s d d.position
    -- Asking for a definition does not change which ones are done or being sized.
    have hsame : ∀ e, (s.askDefinition d d.position).2.Closes e ↔ s.Closes e := by
      intro e
      rw [State.Closes, State.isDone, State.isActive, hfirst.done, hfirst.frames]
      exact Iff.rfl
    exact (hfirst.trans (ih _)).congr Iff.rfl (by simp [hsame])

/-- What is added by a calm box stops nothing and is no cycle. -/
theorem Calm.keeps (h : Calm c s b) (hkeeps : Keeps c False False s s') :
    Keeps c (Halts c s.dim? b) (b.invalid = false ∧ ∃ d ∈ needs c s b, s.Closes d) s s' := by
  refine hkeeps.congr (iff_false_intro h.goes) (iff_false_intro ?_)
  rintro ⟨hvalid, d, hd, hcloses⟩
  exact h.acyclic hvalid d (mem_needs_iff.mp hd) hcloses

/-- Sizing a box reports a cycle if a definition that the box needs closes one. -/
theorem keeps_sizeBox (c : Context) (s : State) (b : Box) :
    Keeps c (Halts c s.dim? b) (b.invalid = false ∧ ∃ d ∈ needs c s b, s.Closes d) s (sizeBox c s b).2 := by
  have hsizes := sizes_sizeBox c s b
  generalize sizeBox c s b = result at hsizes
  cases hsizes with
  | silent h => exact h.keeps (.refl c s)
  | @mistake issue h _ hreported hkind =>
    refine h.keeps ((Keeps.report s b.position issue hreported).congr Iff.rfl (iff_of_false not_false ?_))
    rintro ⟨names, site, rfl⟩
    simp [Issue.kind] at hkind
  | scan hb =>
    subst hb
    refine Calm.keeps ⟨fun h => h.2, fun _ _ h => h.elim⟩ ?_
    split
    · exact { Keeps.refl c s with }
    · exact { (Keeps.report s _ .feedbackWithoutDelay trivial).congr Iff.rfl (by simp) with }
  | @cycle e hvalid _ hdemands hcloses =>
    have hreport := keeps_askDefinition c s e b.position
    rw [State.askDefinition, hcloses.1, hcloses.2] at hreport
    refine hreport.congr (iff_of_false (fun h => not_demands_of_halts h hdemands) not_false) ?_
    exact iff_of_true ⟨hvalid, e, mem_needs_iff.mpr hdemands, hcloses⟩ hcloses
  | locals hvalid hb =>
    subst hb
    exact (keeps_askLocals c _ s).congr (by simp [Halts]) (by simp [hvalid, needs])
  | stop h =>
    refine (Keeps.stop c s _).congr (iff_true_intro h) (iff_false_intro ?_)
    rintro ⟨-, d, hd, -⟩
    exact not_demands_of_halts h (mem_needs_iff.mp hd)

/-! ## The outcome of a box -/

/-- Asking for local definitions changes nothing if none of them closes a cycle. -/
theorem askLocals_eq (c : Context) {locals : List Definition}
    (hneeds : ∀ d ∈ locals, s.isDone d ∨ s.isActive d)
    (hcycle : NoCycle (askLocals locals s).findings) : askLocals locals s = s := by
  have hs := hcycle.of_subset (keeps_askLocals c locals s).subset
  induction locals with
  | nil => rfl
  | cons d rest ih =>
    have hdone : s.isDone d := by
      by_contra hdone
      have hactive := (hneeds d mem_cons_self).resolve_left hdone
      exact ((keeps_askLocals c (d :: rest) s).cycle hs).mp hcycle ⟨d, mem_cons_self, by simpa using hdone, hactive⟩
    have hunfold : askLocals (d :: rest) s = askLocals rest s := by
      simp [askLocals, State.askDefinition, hdone]
    rw [hunfold] at hcycle ⊢
    exact ih (fun e he => hneeds e (mem_cons_of_mem _ he)) hcycle

/-- A box whose needed definitions are not left to be opened has the outcome that its rule gives, unless a cycle is
reported or the machine stops. What is remembered about delays stays right. -/
theorem sizeBox_spec (hr : Delay.Coherent c.resolution) (hfree : Delay.Free c.resolution s.delayFree)
    (hneeded : nextNeeded? c s b = none) (hcycle : NoCycle (sizeBox c s b).2.findings)
    (hfault : (sizeBox c s b).2.fault = none) :
    ∃ outcome, rule c (knownBox s) (knownDefinition s) b = some outcome
      ∧ (sizeBox c s b).1 = outcome.dim
      ∧ (sizeBox c s b).2.findings = s.findings ++ outcome.findings
      ∧ Delay.Free c.resolution (sizeBox c s b).2.delayFree := by
  have hready : Ready c s b := fun d hd => done_or_active_of_nextNeeded? hneeded (mem_needs_iff.mpr hd)
  have hsizes := sizes_sizeBox c s b
  generalize sizeBox c s b = result at hsizes hcycle hfault
  cases hsizes with
  | silent _ hrule => exact ⟨_, hrule hready, rfl, (append_nil _).symm, hfree⟩
  | mistake _ hrule => exact ⟨_, hrule hready, rfl, rfl, hfree⟩
  | @scan _ _ right _ _ hyes hno =>
    -- The scan decides whether there is a delay, and what it remembers stays right.
    obtain ⟨hscan, hfree'⟩ := Delay.scan_spec hr hfree right
    by_cases hdelay : Delay.Contains c.resolution right
    · refine ⟨_, hyes hdelay, rfl, ?_⟩
      rw [if_pos (hscan.mpr hdelay)]
      exact ⟨(append_nil _).symm, hfree'⟩
    · refine ⟨_, hno hdelay, rfl, ?_⟩
      rw [if_neg fun h => hdelay (hscan.mp h)]
      exact ⟨rfl, hfree'⟩
  | cycle => exact absurd rfl (hcycle _ (mem_append_right _ mem_cons_self) _ _)
  | locals hvalid hb =>
    subst hb
    rw [askLocals_eq c hready hcycle]
    refine ⟨_, if_neg (by simp [hvalid]), rfl, (append_nil _).symm, hfree⟩
  | stop => simp at hfault

end Patchbay.Sizing
