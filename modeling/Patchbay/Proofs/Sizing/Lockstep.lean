import Patchbay.Proofs.Sizing.Likeness
import Patchbay.Sizing

/-!
# Programs that are alike are sized in lockstep

The machine decides by numbers of nodes, kinds of symbols and dimensions. It reads the name of a call only where the
call is bound to something built in, and there programs that are alike have the same name. So it takes the same steps in
both, enters the same dimensions and reports the same, up to the names in its messages.
-/

open List

namespace Patchbay

/-- An issue of sizing with its names passed through a function. The names of built-in boxes stay. -/
def Issue.mapNames (f : String → String) : Issue → Issue
  | .circularDefinition cycle defined => .circularDefinition (cycle.map f) defined
  | .tooManySignals name inputs supplied => .tooManySignals (f name) inputs supplied
  | issue => issue

/-- A finding with the names in its issue passed through a function. -/
def Finding.mapNames (f : String → String) (finding : Finding) : Finding :=
  ⟨finding.position, finding.issue.mapNames f⟩

theorem Issue.mapNames_id (issue : Issue) : issue.mapNames id = issue := by
  unfold Issue.mapNames
  split
  · rw [map_id]
  · rfl
  · rfl

theorem Finding.mapNames_id : Finding.mapNames id = id := by
  funext f
  rw [Finding.mapNames, Issue.mapNames_id]
  rfl

variable {b b' : Box} {id : Nat} {mark : Mark} {name name' : String} {args args' : List Box} {d d' : Definition}
  {ds ds' : List Definition}

namespace Sizing

/-- What two programs that are alike are sized with. -/
structure Alike (v : View) (c c' : Context) : Prop where
  resolution : c.resolution.Alike v c'.resolution
  primitives : c'.primitives = c.primitives
  coherent : Delay.Coherent c.resolution
  coherent' : Delay.Coherent c'.resolution

variable {v : View} {c c' : Context} {s s' : State}

/-- The frames are those of valid definitions that are alike, with boxes to do that are alike. -/
structure Frame.Alike (v : View) (c c' : Context) (f f' : Frame) : Prop where
  definition : f.definition.Alike v c.resolution c'.resolution f'.definition
  valid : f.definition.invalid = false
  pending : Forall₂ (fun x x' => x.1.Alike v c.resolution c'.resolution x'.1 ∧ x'.2 = x.2) f.pending f'.pending

/-- The states agree in all but names and in what they know of delays, which is right in both. -/
structure State.Alike (v : View) (c c' : Context)
    (s s' : State) : Prop where
  dims : s'.dims = s.dims
  findings : s'.findings.map (Finding.mapNames v.shown) = s.findings.map (Finding.mapNames v.shown)
  done : s'.done = s.done
  frames : Forall₂ (Frame.Alike v c c') s.frames s'.frames
  free : Delay.Free c.resolution s.delayFree
  free' : Delay.Free c'.resolution s'.delayFree
  fault : s'.fault = s.fault

/-- Sizing a box gives the same dimension, and states that are alike. -/
structure AlikeResults (v : View) (c c' : Context)
    (x x' : Option Dimension × State) : Prop where
  dim : x'.1 = x.1
  state : x.2.Alike v c c' x'.2

theorem State.Alike.start (v : View) (c c' : Context) : State.start.Alike v c c' State.start := by
  refine ⟨rfl, rfl, rfl, .nil, ?_, ?_, rfl⟩
  · intro i d body _ _ hd
    cases hd
  · intro i d body _ _ hd
    cases hd

namespace State.Alike

variable (hs : s.Alike v c c' s')

include hs

theorem dim? (hb : b.Alike v c.resolution c'.resolution b') : s'.dim? b' = s.dim? b := by
  rw [State.dim?, State.dim?, hs.dims, Box.id, Box.id, hb.mark]

/-- The states report issues that are the same but for names. -/
theorem report (position : Position) {issue issue' : Issue} (h : issue'.mapNames v.shown = issue.mapNames v.shown) :
    (s.report position issue).Alike v c c' (s'.report position issue') := by
  refine { hs with findings := ?_ }
  simp only [State.report, map_append, hs.findings, map_cons, map_nil, Finding.mapNames, h]

variable (hd : d.Alike v c.resolution c'.resolution d')

include hd

theorem isDone : s'.isDone d' = s.isDone d := by
  rw [State.isDone, State.isDone, hs.done, hd.id]

theorem isActive : s'.isActive d' = s.isActive d := by
  rw [State.isActive, State.isActive, hd.id]
  have hframes := hs.frames
  generalize s.frames = fs, s'.frames = fs' at hframes
  induction hframes with
  | nil => rfl
  | cons hf _ ih => rw [any_cons, any_cons, ih, hf.definition.id]

/-- The definitions being sized from one inwards are alike. -/
theorem cycleFrom : Forall₂ (Definition.Alike v c.resolution c'.resolution) (s.cycleFrom d) (s'.cycleFrom d') := by
  have hdefinitions : Forall₂ (Definition.Alike v c.resolution c'.resolution)
      (s.frames.map (·.definition)).reverse (s'.frames.map (·.definition)).reverse := by
    rw [forall₂_reverse_iff, forall₂_map_left_iff, forall₂_map_right_iff]
    exact hs.frames.imp fun _ _ hf => hf.definition
  unfold State.cycleFrom
  rw [hd.id]
  generalize (s.frames.map (·.definition)).reverse = ds, (s'.frames.map (·.definition)).reverse = ds' at hdefinitions ⊢
  induction hdefinitions with
  | nil => exact .nil
  | cons he hrest ih =>
    rw [dropWhile_cons, dropWhile_cons, he.id]
    split
    · exact ih
    · exact .cons he hrest

end State.Alike

namespace Alike

/-! ## Definitions -/

theorem names (hds : Forall₂ (Definition.Alike v c.resolution c'.resolution) ds ds') :
    (ds'.map (·.name)).map v.shown = (ds.map (·.name)).map v.shown := by
  induction hds with
  | nil => rfl
  | cons hd _ ih =>
    simp only [map_cons, ih, hd.name]

theorem askDefinition (hs : s.Alike v c c' s') (hd : d.Alike v c.resolution c'.resolution d') (position : Position) :
    AlikeResults v c c' (s.askDefinition d position) (s'.askDefinition d' position) := by
  unfold State.askDefinition
  rw [hs.isDone hd, hs.isActive hd]
  split
  · exact ⟨by rw [hs.dims, hd.id], hs⟩
  · split
    · refine ⟨rfl, hs.report position ?_⟩
      rw [Issue.mapNames, Issue.mapNames, names (hs.cycleFrom hd), Definition.position, Definition.position, hd.mark]
    · exact ⟨rfl, hs⟩

theorem openDefinition (hs : s.Alike v c c' s') (hd : d.Alike v c.resolution c'.resolution d') :
    (s.openDefinition d).Alike v c c' (s'.openDefinition d') := by
  unfold State.openDefinition
  have hbody := hd.validBody?
  cases hvalid : d.validBody? with
  | none =>
    rw [hvalid] at hbody
    rw [eq_none_of_rel_none hbody]
    exact { hs with done := by rw [hs.done, hd.id] }
  | some body =>
    rw [hvalid] at hbody
    obtain ⟨body', hbody', hlike⟩ := exists_of_rel_some hbody
    rw [hbody']
    have hinvalid : d.invalid = false := by
      cases hinvalid : d.invalid with
      | false => rfl
      | true => exact absurd ((if_pos hinvalid).symm.trans hvalid) (by simp)
    exact { hs with frames := .cons ⟨hd, hinvalid, .cons ⟨hlike, rfl⟩ .nil⟩ hs.frames }

theorem closeDefinition (hs : s.Alike v c c' s') (hd : d.Alike v c.resolution c'.resolution d')
    (hvalid : d.invalid = false) : (s.closeDefinition d).Alike v c c' (s'.closeDefinition d') := by
  have hframes : Forall₂ (Frame.Alike v c c') s.frames.tail s'.frames.tail := by
    simpa only [drop_one] using forall₂_drop 1 hs.frames
  have hclosed : State.Alike v c c' { s with frames := s.frames.tail, done := d.id :: s.done }
      { s' with frames := s'.frames.tail, done := d'.id :: s'.done } :=
    { hs with frames := hframes, done := by rw [hs.done, hd.id] }
  have hdim : d'.body.bind (State.dim? { s' with frames := s'.frames.tail, done := d'.id :: s'.done })
      = d.body.bind (State.dim? { s with frames := s.frames.tail, done := d.id :: s.done }) := by
    have hbody := hd.body hvalid
    generalize d.body = body, d'.body = body' at hbody
    cases hbody with
    | none => rfl
    | some hlike => exact hclosed.dim? hlike
  unfold State.closeDefinition
  dsimp only
  rw [hdim]
  generalize d.body.bind _ = dim
  cases dim with
  | none => exact hclosed
  | some dim =>
    refine { hclosed with dims := ?_ }
    rw [hs.dims, hd.id, hd.params_length hvalid]

/-! ## Boxes -/

theorem iterationParts? (h : Alike v c c') (hname : c.resolution.CallsAlike v id name name')
    (hargs : Forall₂ (Box.Alike v c.resolution c'.resolution) args args') :
    Option.Rel
      (fun x x' => x.1.Alike v c.resolution c'.resolution x'.1 ∧ x.2.Alike v c.resolution c'.resolution x'.2)
      (iterationParts? c id name args) (iterationParts? c' id name' args') := by
  unfold Sizing.iterationParts?
  have hguard := h.resolution.and_any_kind hname (.inl rfl) iterations.contains
  match args, hargs with
  | [], .nil => exact .none
  | [_], .cons _ .nil => exact .none
  | [_, _], .cons _ (.cons _ .nil) => exact .none
  | _ :: _ :: _ :: _ :: _, .cons _ (.cons _ (.cons _ (.cons _ _))) => exact .none
  | [_, _, _], .cons _ (.cons hcount (.cons hbody .nil)) =>
    dsimp only
    rw [hguard]
    split
    · exact .some ⟨hcount, hbody⟩
    · exact .none

/-- The name of an iteration is built in. -/
theorem name_of_iteration (hname : c.resolution.CallsAlike v id name name') {parts : Box × Box}
    (hparts : Sizing.iterationParts? c id name args = some parts) : name' = name := by
  unfold Sizing.iterationParts? at hparts
  split at hparts
  · split at hparts
    · rename_i hguard
      exact hname.eq_of_any_kind (.inl rfl) (Bool.and_eq_true_iff.mp hguard).2
    · simp at hparts
  · simp at hparts

theorem operands (h : Alike v c c') (hb : b.Alike v c.resolution c'.resolution b') :
    Forall₂ (Box.Alike v c.resolution c'.resolution) (operands c b) (operands c' b') := by
  cases hb with
  | ref | number | string => exact .nil
  | compose hleft hright => exact .cons hleft (.cons hright .nil)
  | block hbody hlocals => exact .cons hbody .nil
  | @call mark name name' args args' hname hargs =>
    have hparts := h.iterationParts? hname hargs
    unfold operands
    dsimp only
    generalize Sizing.iterationParts? c mark.id name args = o,
      Sizing.iterationParts? c' mark.id name' args' = o' at hparts
    cases hparts with
    | none => exact hargs
    | some hrel => exact .cons hrel.2 .nil

theorem toList {α β : Type} {R : α → β → Prop} {o : Option α} {o' : Option β} (h : Option.Rel R o o') :
    Forall₂ R o.toList o'.toList := by
  cases h with
  | none => exact .nil
  | some h => exact .cons h .nil

theorem needs (h : Alike v c c') (hs : s.Alike v c c' s') (hb : b.Alike v c.resolution c'.resolution b') :
    Forall₂ (Definition.Alike v c.resolution c'.resolution) (needs c s b) (needs c' s' b') := by
  cases hb with
  | number | string | compose => exact .nil
  | block hbody hlocals => exact hlocals
  | ref hid => exact toList (h.resolution.userDefinition? hid)
  | @call mark name name' args args' hname hargs =>
    have hany : (args'.any fun a => (s'.dim? a).isNone) = args.any fun a => (s.dim? a).isNone := by
      clear hname
      induction hargs with
      | nil => rfl
      | cons ha _ ih => rw [any_cons, any_cons, ih, hs.dim? ha]
    unfold needs
    dsimp only
    rw [hany]
    split
    · exact .nil
    · exact toList (h.resolution.userDefinition? hname.within)

theorem nextNeeded? (h : Alike v c c') (hs : s.Alike v c c' s') (hb : b.Alike v c.resolution c'.resolution b') :
    Option.Rel (Definition.Alike v c.resolution c'.resolution) (nextNeeded? c s b)
      (nextNeeded? c' s' b') := by
  unfold Sizing.nextNeeded?
  have hneeds := h.needs hs hb
  generalize Sizing.needs c s b = ds, Sizing.needs c' s' b' = ds' at hneeds
  induction hneeds with
  | nil => exact .none
  | cons hd _ ih =>
    rw [find?_cons, find?_cons, hs.isDone hd, hs.isActive hd]
    split
    · exact .some hd
    · exact ih

theorem sizeReference (h : Alike v c c') (hs : s.Alike v c c' s') (hid : v.within mark.id) :
    AlikeResults v c c' (sizeReference c s mark) (sizeReference c' s' mark) := by
  unfold Sizing.sizeReference
  obtain ⟨hsymbol, hsymbol'⟩ | ⟨symbol, symbol', hsymbol, hsymbol', hlike⟩ := h.resolution.unbound_or_alike hid
  · rw [hsymbol, hsymbol']
    exact ⟨rfl, hs⟩
  · rw [hsymbol, hsymbol']
    dsimp only
    rw [hlike.kind, hlike.arity]
    have hdefinition := hlike.definition
    generalize symbol.definition = o, symbol'.definition = o' at hdefinition
    cases symbol.kind with
    | userDefined =>
      cases hdefinition with
      | none => exact ⟨rfl, hs⟩
      | some hd => exact askDefinition hs hd mark.position
    | primitive | imported | parameter | ui => exact ⟨rfl, hs⟩

theorem isParameter (h : Alike v c c') (hb : b.Alike v c.resolution c'.resolution b') :
    isParameter c' b' = isParameter c b := by
  cases hb with
  | ref hid => exact h.resolution.any_kind hid (· == .parameter)
  | number | string | call | compose | block => rfl

/-- A composition: the searches for a delay have the same answer. -/
theorem sizeComposition (h : Alike v c c') (hs : s.Alike v c c' s') (mark : Mark) (op : Operator)
    {left left' right right' : Box} (hleft : left.Alike v c.resolution c'.resolution left')
    (hright : right.Alike v c.resolution c'.resolution right') :
    AlikeResults v c c' (sizeComposition c s mark op left right)
      (sizeComposition c' s' mark op left' right') := by
  obtain ⟨hscan, hfree⟩ := Delay.scan_spec h.coherent hs.free right
  obtain ⟨hscan', hfree'⟩ := Delay.scan_spec h.coherent' hs.free' right'
  have hfound : (Delay.scan c'.resolution s'.delayFree right').1 = (Delay.scan c.resolution s.delayFree right).1 := by
    rw [Bool.eq_iff_iff, hscan, hscan']
    exact Delay.contains_alike_iff h.resolution hright
  have hscanned : State.Alike v c c' { s with delayFree := (Delay.scan c.resolution s.delayFree right).2 }
      { s' with delayFree := (Delay.scan c'.resolution s'.delayFree right').2 } :=
    { hs with free := hfree, free' := hfree' }
  unfold Sizing.sizeComposition
  rw [hs.dim? hleft, hs.dim? hright, h.isParameter hright]
  cases s.dim? left with
  | none => exact ⟨rfl, hs⟩
  | some a =>
    cases s.dim? right with
    | none => exact ⟨rfl, hs⟩
    | some b =>
      dsimp only
      split
      · exact ⟨rfl, hs⟩
      · cases Dimension.compose op a b with
        | none => exact ⟨rfl, hs.report mark.position rfl⟩
        | some result =>
          dsimp only
          split
          · rw [hfound]
            refine ⟨rfl, ?_⟩
            split
            · exact hscanned
            · exact hscanned.report mark.position rfl
          · exact ⟨rfl, hs⟩

theorem mapM_dim? (hs : s.Alike v c c' s') (hargs : Forall₂ (Box.Alike v c.resolution c'.resolution) args args') :
    args'.mapM s'.dim? = args.mapM s.dim? := by
  induction hargs with
  | nil => rfl
  | cons ha _ ih => rw [mapM_cons, mapM_cons, ih, hs.dim? ha]

theorem sizeCall (h : Alike v c c') (hs : s.Alike v c c' s') (hname : c.resolution.CallsAlike v mark.id name name')
    (hargs : Forall₂ (Box.Alike v c.resolution c'.resolution) args args') :
    AlikeResults v c c' (sizeCall c s mark name args) (sizeCall c' s' mark name' args') := by
  unfold Sizing.sizeCall
  rw [mapM_dim? hs hargs]
  cases args.mapM s.dim? with
  | none => exact ⟨rfl, hs⟩
  | some dims =>
    have hcallee := h.sizeReference hs hname.within
    generalize Sizing.sizeReference c s mark = x, Sizing.sizeReference c' s' mark = x' at hcallee
    obtain ⟨callee, t⟩ := x
    obtain ⟨callee', t'⟩ := x'
    obtain ⟨rfl, hstate⟩ := hcallee
    cases callee' with
    | none => exact ⟨rfl, hstate⟩
    | some callee =>
      dsimp only
      cases callDimension callee dims with
      | some result => exact ⟨rfl, hstate⟩
      | none =>
        refine ⟨rfl, hstate.report mark.position ?_⟩
        rw [Issue.mapNames, Issue.mapNames, hname.shown]

theorem sizeUiCall (h : Alike v c c') (hs : s.Alike v c c' s') (mark : Mark) (name : String)
    (hargs : Forall₂ (Box.Alike v c.resolution c'.resolution) args args') :
    AlikeResults v c c' (sizeUiCall c s mark name args) (sizeUiCall c' s' mark name args') := by
  have hcontent : AlikeResults v c c' (sizeUiCall.content s name args)
      (sizeUiCall.content s' name args') := by
    unfold sizeUiCall.content
    split
    · match args, hargs with
      | [], .nil | [_], .cons _ .nil => exact ⟨rfl, { hs with fault := rfl }⟩
      | _ :: _ :: _, .cons _ (.cons hinner _) => exact ⟨hs.dim? hinner, hs⟩
    · split
      · exact ⟨rfl, hs⟩
      · split
        · exact ⟨rfl, hs⟩
        · exact ⟨rfl, hs⟩
  unfold Sizing.sizeUiCall
  rw [h.primitives, hargs.length_eq]
  cases (c.primitives.get? name).bind (·.uiArgs) with
  | none => exact hcontent
  | some expected =>
    dsimp only
    split
    · exact ⟨rfl, hs.report mark.position rfl⟩
    · exact hcontent

theorem sizeIteration (h : Alike v c c') (hs : s.Alike v c c' s') (mark : Mark) (name : String)
    {count count' body body' : Box} (hcount : count.Alike v c.resolution c'.resolution count')
    (hbody : body.Alike v c.resolution c'.resolution body') :
    AlikeResults v c c' (sizeIteration c s mark name count body)
      (sizeIteration c' s' mark name count' body') := by
  unfold Sizing.sizeIteration
  rw [hs.dim? hbody, h.resolution.constant? hcount]
  cases s.dim? body with
  | none => exact ⟨rfl, hs⟩
  | some dimension =>
    cases c.resolution.constant? count with
    | none => exact ⟨rfl, hs⟩
    | some value =>
      dsimp only
      split
      · exact ⟨rfl, hs⟩
      · split
        · exact ⟨rfl, { hs with fault := rfl }⟩
        · cases value.toInt? with
          | none => exact ⟨rfl, hs⟩
          | some n =>
            dsimp only
            cases iterationDimension name n.toNat dimension with
            | some result => exact ⟨rfl, hs⟩
            | none => exact ⟨rfl, hs.report mark.position rfl⟩

theorem askLocals (hs : s.Alike v c c' s') {locals locals' : List Definition}
    (hlocals : Forall₂ (Definition.Alike v c.resolution c'.resolution) locals locals') :
    (askLocals locals s).Alike v c c' (askLocals locals' s') := by
  unfold Sizing.askLocals
  induction hlocals generalizing s s' with
  | nil => exact hs
  | cons hd _ ih =>
    rw [foldl_cons, foldl_cons, Definition.position, Definition.position, hd.mark]
    exact ih (askDefinition hs hd _).state

/-- Boxes that are alike get the same dimension. -/
theorem sizeBox (h : Alike v c c') (hs : s.Alike v c c' s') (hb : b.Alike v c.resolution c'.resolution b') :
    AlikeResults v c c' (sizeBox c s b) (sizeBox c' s' b') := by
  unfold Sizing.sizeBox
  rw [Box.invalid, Box.invalid, hb.mark]
  split
  · exact ⟨rfl, hs⟩
  · cases hb with
    | number | string => exact ⟨rfl, hs⟩
    | ref hid => exact h.sizeReference hs hid
    | compose hleft hright => exact h.sizeComposition hs _ _ hleft hright
    | block hbody hlocals =>
      have hasked := askLocals hs hlocals
      exact ⟨hasked.dim? hbody, hasked⟩
    | @call mark name name' args args' hname hargs =>
      dsimp only
      obtain ⟨hsymbol, hsymbol'⟩ | ⟨symbol, symbol', hsymbol, hsymbol', hlike⟩ :=
        h.resolution.unbound_or_alike hname.within
      · rw [hsymbol, hsymbol']
        exact ⟨rfl, hs⟩
      · rw [hsymbol, hsymbol']
        dsimp only
        have hparts := h.iterationParts? hname hargs
        cases hiteration : Sizing.iterationParts? c mark.id name args with
        | some parts =>
          rw [hiteration] at hparts
          obtain ⟨parts', hiteration', hcount, hbody⟩ := exists_of_rel_some hparts
          obtain rfl := name_of_iteration hname hiteration
          rw [hiteration']
          exact h.sizeIteration hs mark _ hcount hbody
        | none =>
          rw [hiteration] at hparts
          rw [eq_none_of_rel_none hparts, hlike.kind]
          dsimp only
          split
          · rename_i hui
            obtain rfl : name' = name := hname.eq_of_any_kind (.inr rfl) (by rw [hsymbol]; simp [hui])
            exact h.sizeUiCall hs mark _ hargs
          · split
            · exact ⟨rfl, hs⟩
            · exact h.sizeCall hs hname hargs

/-! ## The machine -/

theorem enter (hs : s.Alike v c c' s') (hb : b.Alike v c.resolution c'.resolution b') (dim : Option Dimension) :
    (s.enter b dim).Alike v c c' (s'.enter b' dim) := by
  cases dim with
  | none => exact hs
  | some d =>
    refine { hs with dims := ?_ }
    dsimp only [State.enter]
    rw [hs.dims, Box.id, Box.id, hb.mark]

/-- The machine takes the same step in states that are alike. -/
theorem step (h : Alike v c c') (hs : s.Alike v c c' s') : (step c s).Alike v c c' (step c' s') := by
  have hframes := hs.frames
  unfold Sizing.step
  cases hfs : s.frames with
  | nil =>
    rw [hfs] at hframes
    rw [forall₂_nil_left_iff.mp hframes]
    exact hs
  | cons frame below =>
    rw [hfs] at hframes
    obtain ⟨frame', below', ⟨hd, hvalid, hpending⟩, hbelow, hfs'⟩ := forall₂_cons_left_iff.mp hframes
    obtain ⟨d, pending⟩ := frame
    obtain ⟨d', pending'⟩ := frame'
    rw [hfs']
    cases hpending with
    | nil => exact closeDefinition hs hd hvalid
    | @cons x x' rest rest' hx hrest =>
      obtain ⟨b, ready⟩ := x
      obtain ⟨b', ready'⟩ := x'
      obtain ⟨hb, rfl⟩ : b.Alike v c.resolution c'.resolution b' ∧ ready' = ready := hx
      cases ready' with
      | false =>
        have htodo : Forall₂ (fun x x' => x.1.Alike v c.resolution c'.resolution x'.1 ∧ x'.2 = x.2)
            ((Sizing.operands c b).map fun part => (part, false))
            ((Sizing.operands c' b').map fun part => (part, false)) := by
          rw [forall₂_map_left_iff, forall₂_map_right_iff]
          exact (h.operands hb).imp fun _ _ hpart => ⟨hpart, rfl⟩
        have hready : Forall₂ (fun x x' => x.1.Alike v c.resolution c'.resolution x'.1 ∧ x'.2 = x.2)
            ((b, true) :: rest) ((b', true) :: rest') := .cons ⟨hb, rfl⟩ hrest
        exact { hs with frames := .cons ⟨hd, hvalid, rel_append htodo hready⟩ hbelow }
      | true =>
        dsimp only
        have hneeded := h.nextNeeded? hs hb
        cases hnext : Sizing.nextNeeded? c s b with
        | some needed =>
          rw [hnext] at hneeded
          obtain ⟨needed', hnext', hlike⟩ := exists_of_rel_some hneeded
          rw [hnext']
          exact openDefinition hs hlike
        | none =>
          rw [hnext] at hneeded
          rw [eq_none_of_rel_none hneeded]
          obtain ⟨hdim, hsized⟩ := h.sizeBox hs hb
          rw [hdim]
          have hpopped : State.Alike v c c' { (Sizing.sizeBox c s b).2 with frames := ⟨d, rest⟩ :: below }
              { (Sizing.sizeBox c' s' b').2 with frames := ⟨d', rest'⟩ :: below' } :=
            { hsized with frames := .cons ⟨hd, hvalid, hrest⟩ hbelow }
          exact enter hpopped hb _

theorem ended (hs : s.Alike v c c' s') :
    (s'.frames.isEmpty || s'.fault.isSome) = (s.frames.isEmpty || s.fault.isSome) := by
  have hempty : s'.frames.isEmpty = s.frames.isEmpty := by
    rw [Bool.eq_iff_iff, isEmpty_iff_length_eq_zero, isEmpty_iff_length_eq_zero, hs.frames.length_eq]
  rw [hempty, hs.fault]

theorem run (h : Alike v c c') (hs : s.Alike v c c' s') (fuel : Nat) :
    (run c fuel s).Alike v c c' (run c' fuel s') := by
  induction fuel generalizing s s' with
  | zero => exact hs
  | succ fuel ih =>
    rw [run, run, ended hs]
    split
    · exact hs
    · exact ih (h.step hs)

theorem sizeDefinition (h : Alike v c c') (hs : s.Alike v c c' s') (hd : d.Alike v c.resolution c'.resolution d')
    (fuel : Nat) : (sizeDefinition c fuel s d).Alike v c c' (sizeDefinition c' fuel s' d') := by
  unfold Sizing.sizeDefinition
  rw [hs.isDone hd, hs.fault]
  split
  · exact hs
  · exact h.run (openDefinition hs hd) fuel

/-- Definitions that are alike are sized to states that are alike. -/
theorem sizeDefinitions (h : Alike v c c') (hs : s.Alike v c c' s')
    (hds : Forall₂ (Definition.Alike v c.resolution c'.resolution) ds ds') (fuel : Nat) :
    (ds.foldl (Sizing.sizeDefinition c fuel) s).Alike v c c' (ds'.foldl (Sizing.sizeDefinition c' fuel) s') := by
  induction hds generalizing s s' with
  | nil => exact hs
  | cons hd _ ih => exact ih (h.sizeDefinition hs hd fuel)

end Alike

end Sizing

end Patchbay
