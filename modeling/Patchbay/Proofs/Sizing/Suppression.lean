import Patchbay.Proofs.Analysis.Returning

/-!
# A mistake is reported once

A box at which a mistake is reported gets no dimension. What uses the dimension of a node that has none gets none
either, and no mistake is reported there: every rule passes the unknown on in silence. So neither the boxes around a
mistake nor the definitions and references that lead there are blamed for it, however far away they are.

A user-interface box other than a group has its dimension whatever its arguments are, so it does not use theirs.
-/

open List

namespace Patchbay

variable {b : Box} {id : Nat} {mark : Mark} {n x y : Node} {name : String} {f : Finding} {args : List Box}
  {d : Definition}

namespace Sizing

variable {c : Context} {D ds : List Definition} {ms : List Moment} {s : State} {p : Program}

/-- What a node uses the dimension of. -/
inductive Uses (c : Context) : Node → Node → Prop where
  | left (mark : Mark) (op : Operator) (left right : Box) : Uses c (.box (.compose mark op left right)) (.box left)
  | right (mark : Mark) (op : Operator) (left right : Box) : Uses c (.box (.compose mark op left right)) (.box right)
  /-- An ordinary call is neither an iteration nor one of a user-interface box. -/
  | argument {mark : Mark} {name : String} {args : List Box} {a : Box}
      (hparts : iterationParts? c mark.id name args = none)
      (hkind : ∀ symbol, c.resolution.symbol? mark.id = some symbol → symbol.kind ≠ .ui) (ha : a ∈ args) :
      Uses c (.box (.call mark name args)) (.box a)
  | head {mark : Mark} {d : Definition} (name : String) (args : List Box)
      (hd : c.resolution.userDefinition? mark.id = some d) : Uses c (.box (.call mark name args)) (.definition d)
  | iteration {mark : Mark} {name : String} {args : List Box} {count body : Box}
      (hparts : iterationParts? c mark.id name args = some (count, body)) :
      Uses c (.box (.call mark name args)) (.box body)
  | group {mark : Mark} {name : String} {symbol : Symbol} (label content : Box)
      (hsymbol : c.resolution.symbol? mark.id = some symbol) (hkind : symbol.kind = .ui) (hname : name ∈ groups) :
      Uses c (.box (.call mark name [label, content])) (.box content)
  | block (mark : Mark) (body : Box) (locals : List Definition) : Uses c (.box (.block mark body locals)) (.box body)
  | reference {mark : Mark} {d : Definition} (name : String) (hd : c.resolution.userDefinition? mark.id = some d) :
      Uses c (.box (.ref mark name)) (.definition d)
  | body {d : Definition} {body : Box} (hbody : d.body = some body) : Uses c (.definition d) (.box body)

/-! ## Rules -/

/-- A result without a dimension in which no mistake was reported. -/
def Passes (s : State) (result : Option Dimension × State) : Prop :=
  result.1 = none ∧ ∃ new, result.2.findings = s.findings ++ new ∧ ∀ f ∈ new, f.issue.kind ≠ .dimension

theorem passes_silent (s : State) : Passes s (none, s) :=
  ⟨rfl, [], (append_nil _).symm, fun _ hf => absurd hf not_mem_nil⟩

/-- A definition without a dimension: one that is being sized closes a cycle, which is no mistake of this kind. -/
theorem passes_sizeReference (huser : c.resolution.userDefinition? mark.id = some d) (hd : s.dims.get? d.id = none) :
    Passes s (sizeReference c s mark) := by
  rw [(sizeReference_of_some huser s).1, State.askDefinition, hd]
  split
  · exact passes_silent s
  · split
    · refine ⟨rfl, _, rfl, ?_⟩
      intro f hf
      rw [mem_singleton.mp hf]
      simp [Issue.kind]
    · exact passes_silent s

theorem passes_sizeCall_argument {a : Box} (ha : a ∈ args) (hunknown : s.dim? a = none) :
    Passes s (sizeCall c s mark name args) := by
  unfold sizeCall
  cases hdims : args.mapM s.dim? with
  | none => exact passes_silent s
  | some dims => exact absurd (isSome_of_mapM hdims a ha) (by simp [hunknown])

theorem passes_sizeCall_head (hhead : Passes s (sizeReference c s mark)) : Passes s (sizeCall c s mark name args) := by
  unfold sizeCall
  split
  · exact passes_silent s
  · rcases hreference : sizeReference c s mark with ⟨_ | callee, s'⟩
    · rw [hreference] at hhead
      exact hhead
    · rw [hreference] at hhead
      exact absurd hhead.1 (by simp)

/-- A box that uses something of unknown dimension has none, and no mistake is reported about it. -/
theorem passes_sizeBox (hgroups : ∀ name ∈ groups, (c.primitives.get? name).bind (·.uiArgs) = some 2)
    (h : Uses c (.box b) n) (hn : s.dims.get? n.mark.id = none) : Passes s (sizeBox c s b) := by
  unfold sizeBox
  split
  · exact passes_silent s
  · cases h with
    | left mark op left right =>
      have hleft : s.dim? left = none := hn
      dsimp only
      rw [sizeComposition, hleft]
      exact passes_silent s
    | right mark op left right =>
      have hright : s.dim? right = none := hn
      dsimp only
      rw [sizeComposition, hright]
      cases s.dim? left with
      | none => exact passes_silent s
      | some dim => exact passes_silent s
    | @argument mark name args a hparts hkind ha =>
      dsimp only
      split
      · exact passes_silent s
      · rename_i symbol hsymbol
        rw [hparts]
        dsimp only
        rw [if_neg (hkind symbol hsymbol)]
        split
        · exact passes_silent s
        · exact passes_sizeCall_argument ha hn
    | @head mark d name args hd =>
      obtain ⟨symbol, hsymbol, hkind, -⟩ := userDefinition?_eq_some_iff.mp hd
      have hparts : iterationParts? c mark.id name args = none := by
        cases hparts : iterationParts? c mark.id name args with
        | none => rfl
        | some parts => exact absurd ((userDefinition?_of_iterationParts? hparts).symm.trans hd) (by simp)
      dsimp only
      rw [hsymbol, hparts]
      dsimp only
      rw [hkind, if_neg (by simp), if_neg (by simp)]
      exact passes_sizeCall_head (passes_sizeReference hd hn)
    | @iteration mark name args count body hparts =>
      have hbody : s.dim? body = none := hn
      dsimp only
      rw [hparts]
      split
      · exact passes_silent s
      · dsimp only
        rw [sizeIteration, hbody]
        exact passes_silent s
    | @group mark name symbol label content hsymbol hkind hname =>
      have hcontent : s.dim? content = none := hn
      have hparts : iterationParts? c mark.id name [label, content] = none := rfl
      dsimp only
      rw [hsymbol, hparts]
      dsimp only
      -- The number of arguments is the one that groups have, so the content is what counts.
      rw [if_pos hkind, sizeUiCall, hgroups name hname]
      dsimp only
      rw [if_neg (by simp), sizeUiCall.content, if_pos (contains_iff_mem.mpr hname), hcontent]
      exact passes_silent s
    | block mark body locals =>
      obtain ⟨new, hfindings, hnew⟩ := findings_askLocals locals s
      refine ⟨?_, new, hfindings, ?_⟩
      · have hdims := (keeps_askLocals c locals s).dims
        have hbody : s.dim? body = none := hn
        dsimp only
        rw [State.dim?, hdims]
        exact hbody
      · intro f hf
        obtain ⟨e, -, -, rfl⟩ := hnew f hf
        simp [State.cycleFinding, Issue.kind]
    | reference name hd => exact passes_sizeReference hd hn

/-! ## Mistakes at nodes -/

/-- The mistakes that were reported while the machine worked at the node of a number. -/
def mistakesAt (c : Context) (ms : List Moment) (id : Nat) : List Finding :=
  ((ms.filter fun m => m.action.id == id).flatMap (Moment.reports c)).filter fun f => f.issue.kind == .dimension

theorem mem_mistakesAt :
    f ∈ mistakesAt c ms id ↔ ∃ m ∈ ms, m.action.id = id ∧ f ∈ m.reports c ∧ f.issue.kind = .dimension := by
  simp only [mistakesAt, mem_filter, mem_flatMap, beq_iff_eq]
  constructor
  · rintro ⟨⟨m, ⟨hm, hid⟩, hf⟩, hkind⟩
    exact ⟨m, hm, hid, hf, hkind⟩
  · rintro ⟨m, hm, hid, hf, hkind⟩
    exact ⟨⟨m, ⟨hm, hid⟩, hf⟩, hkind⟩

/-- A mistake is all that is reported about its box, which gets no dimension. -/
theorem Report.eq_of_mistake {dim : Option Dimension} {new : List Finding} (h : Report c s b dim new) (hf : f ∈ new)
    (hkind : f.issue.kind = .dimension) : dim = none ∧ new = [f] ∧ f.position = b.position := by
  cases h with
  | silent => cases hf
  | mistake =>
    obtain rfl := mem_singleton.mp hf
    exact ⟨rfl, rfl, rfl⟩
  | feedback =>
    rw [mem_singleton.mp hf] at hkind
    simp [Issue.kind] at hkind
  | cycle =>
    rw [mem_singleton.mp hf] at hkind
    simp [State.cycleFinding, Issue.kind] at hkind
  | localCycles hblock hdim hnew =>
    obtain ⟨e, -, -, rfl⟩ := hnew f hf
    simp [State.cycleFinding, Issue.kind] at hkind

/-- No mistake is reported at a number that no sized box has. -/
theorem mistakesAt_eq_nil (h : id ∉ (sizings ms).map Box.id) : mistakesAt c ms id = [] := by
  rw [eq_nil_iff_forall_not_mem]
  intro f hf
  obtain ⟨m, hm, hid, hreports, -⟩ := mem_mistakesAt.mp hf
  obtain ⟨b, hb⟩ := exists_sizing_of_reports hreports
  refine h (mem_map.mpr ⟨b, mem_sizings.mpr ⟨m, hm, hb⟩, ?_⟩)
  rw [hb] at hid
  exact hid

/-- At most one mistake is reported in a moment. -/
theorem length_mistakes_le (c : Context) (m : Moment) :
    ((m.reports c).filter fun f => f.issue.kind == .dimension).length ≤ 1 := by
  obtain ⟨s, a⟩ := m
  cases a with
  | sizing b =>
    cases hmistakes : ((⟨s, .sizing b⟩ : Moment).reports c).filter fun f => f.issue.kind == .dimension with
    | nil => exact Nat.zero_le 1
    | cons f rest =>
      have hf : f ∈ ((⟨s, .sizing b⟩ : Moment).reports c).filter fun f => f.issue.kind == .dimension := by
        rw [hmistakes]
        exact mem_cons_self
      obtain ⟨hmem, hkind⟩ := mem_filter.mp hf
      obtain ⟨-, hnew, -⟩ := (report_of_sizing c s b).eq_of_mistake hmem (beq_iff_eq.mp hkind)
      rw [← hmistakes, hnew]
      exact length_filter_le _ _
  | opening | preparing | closing =>
    rw [reports_of_not_sizing rfl]
    exact Nat.zero_le 1

/-- At most one mistake is reported at a number, if no box is sized twice. -/
theorem length_mistakesAt_le (hnodup : ((sizings ms).map Box.id).Nodup) (id : Nat) :
    (mistakesAt c ms id).length ≤ 1 := by
  induction ms with
  | nil => exact Nat.zero_le 1
  | cons m rest ih =>
    have hsizings : sizings (m :: rest) = m.action.sized?.toList ++ sizings rest := by
      rw [sizings, filterMap_cons]
      cases m.action.sized? <;> rfl
    rw [hsizings, map_append] at hnodup
    have hrest := ih (List.nodup_append.mp hnodup).2.1
    by_cases hid : m.action.id = id
    · have hsplit : mistakesAt c (m :: rest) id
          = (m.reports c).filter (fun f => f.issue.kind == .dimension) ++ mistakesAt c rest id := by
        rw [mistakesAt, filter_cons_of_pos (by simp [hid]), flatMap_cons, filter_append]
        rfl
      rw [hsplit]
      obtain ⟨s, a⟩ := m
      cases a with
      | sizing b =>
        -- The box is not sized again, so nothing more is reported at its number.
        have hnot : id ∉ (sizings rest).map Box.id := by
          intro hmem
          exact (List.nodup_append.mp hnodup).2.2 b.id mem_cons_self id hmem hid
        rw [mistakesAt_eq_nil hnot, append_nil]
        exact length_mistakes_le c _
      | opening | preparing | closing =>
        rw [reports_of_not_sizing rfl]
        exact hrest
    · have hsplit : mistakesAt c (m :: rest) id = mistakesAt c rest id := by
        rw [mistakesAt, filter_cons_of_neg (by simp [hid])]
        rfl
      rw [hsplit]
      exact hrest

/-! ## Nodes of a program -/

section

variable (primitives : Primitives) (available : Libraries) (hids : (p.nodes.map (·.mark.id)).Nodup)

include hids

theorem node_eq (hx : x ∈ p.nodes) (hy : y ∈ p.nodes) (h : x.mark.id = y.mark.id) : x = y :=
  inj_on_of_nodup_map hids hx hy h

/-- What a node of a program uses is a node of the program. -/
theorem Uses.mem_nodes (h : Uses (programSizing primitives available p) x y) (hx : x ∈ p.nodes) : y ∈ p.nodes := by
  have hchild (hy : y ∈ x.children) : y ∈ p.nodes := p.partsIn_nodes x hx y hy
  cases h with
  | left | right | block => exact hchild (by simp [Node.children])
  | argument hparts hkind ha => exact hchild (mem_map_of_mem ha)
  | head name args hd | reference name hd => exact mem_nodes_of_userDefinition? primitives available hids hd
  | iteration hparts =>
    obtain ⟨binder, rfl⟩ := exists_of_iterationParts? hparts
    exact hchild (by simp [Node.children])
  | group => exact hchild (by simp [Node.children])
  | body hbody => exact hchild (by simp [Node.children, hbody])

variable {primitives available}

variable (h : Record c (sizedDefinitions c p) ms s)

include h

/-- A sized box with the number of a node is that node. -/
theorem Record.eq_box (hn : n ∈ p.nodes)
    (hid : n.mark.id ∈ (sizings ms).map Box.id) : ∃ b ∈ sizings ms, n = .box b := by
  obtain ⟨b, hb, heq⟩ := mem_map.mp hid
  obtain ⟨d, hd, hbody⟩ := mem_flatMap.mp (h.mem_boxes (mem_append_left _ hb))
  exact ⟨b, hb, node_eq hids hn (box_mem_nodes hd hbody) heq.symm⟩

/-- A definition that is done and has the number of a node is that node. -/
theorem Record.eq_definition (hn : n ∈ p.nodes) (hid : n.mark.id ∈ s.done) : ∃ d ∈ openings ms, n = .definition d := by
  obtain ⟨d, hd, heq⟩ := mem_map.mp (h.status.mem_iff.mpr (mem_append_left _ hid))
  exact ⟨d, mem_reverse.mp hd, node_eq hids hn (definition_mem_nodes (h.subset hd)) heq.symm⟩

/-- A node that uses a node without a dimension has none, and no mistake is reported there. -/
theorem Record.unknown_of_uses
    (hgroups : ∀ name ∈ groups, (c.primitives.get? name).bind (·.uiArgs) = some 2) (huses : Uses c x y)
    (hx : x ∈ p.nodes) (hy : s.dims.get? y.mark.id = none) :
    s.dims.get? x.mark.id = none ∧ mistakesAt c ms x.mark.id = [] := by
  by_cases hsized : x.mark.id ∈ (sizings ms).map Box.id
  · obtain ⟨b, hb, rfl⟩ := h.eq_box hids hx hsized
    -- A dimension that is unknown in the end was unknown when the box was sized.
    have hpasses : ∀ m ∈ ms, m.action = .sizing b → Passes m.state (sizeBox c m.state b) := by
      intro m hm hmb
      refine passes_sizeBox hgroups huses ?_
      cases hdim : m.state.dims.get? y.mark.id with
      | none => rfl
      | some v => exact absurd ((h.kept m hm _ v hdim).symm.trans hy) (by simp)
    constructor
    · obtain ⟨m, hm, hmb⟩ := mem_sizings.mp hb
      exact (h.boxes m hm b hmb).trans (hpasses m hm hmb).1
    · rw [eq_nil_iff_forall_not_mem]
      intro f hf
      obtain ⟨⟨s', a⟩, hm, hid, hreports, hkind⟩ := mem_mistakesAt.mp hf
      obtain ⟨b', rfl⟩ := exists_sizing_of_reports hreports
      obtain ⟨d, hd, hbody⟩ :=
        mem_flatMap.mp (h.mem_boxes (mem_append_left _ (mem_sizings.mpr ⟨_, hm, rfl⟩)))
      obtain rfl : b' = b := Node.box.inj (node_eq hids (box_mem_nodes hd hbody) hx hid)
      obtain ⟨-, new, hnew, hquiet⟩ := hpasses _ hm rfl
      rw [Moment.reports, Moment.after, findings_after_sizing, hnew, drop_left] at hreports
      exact hquiet f hreports hkind
  · refine ⟨?_, mistakesAt_eq_nil hsized⟩
    by_cases hdone : x.mark.id ∈ s.done
    · obtain ⟨d, hd, rfl⟩ := h.eq_definition hids hx hdone
      cases huses with
      | @body _ body hbody =>
        refine (h.definitions d hd hdone).trans ?_
        rw [State.bodyDim?]
        cases hvalid : d.validBody? with
        | none => rfl
        | some body' =>
          obtain rfl : body' = body := Option.some.inj ((body_of_validBody? hvalid).symm.trans hbody)
          rw [Option.bind_some, State.dim?, show s.dims.get? body'.id = none from hy]
          rfl
    · exact h.others _ hsized hdone

end

end Sizing

open Sizing in
/-- In a program whose nodes have different numbers a mistake of dimensions is reported once. Each mistake is reported
at a box and at its place. The box has no dimension, nor has any node that uses it, directly or through others, and no
mistake is reported there. No box has two mistakes. -/
theorem Program.mistakes_once (available : Libraries) (p : Program) (hids : (p.nodes.map (·.mark.id)).Nodup) :
    let c := programSizing standardPrimitives available p
    (∀ f ∈ (p.sized available).findings, f.issue.kind = .dimension →
      ∃ b, Node.box b ∈ p.nodes ∧ f.position = b.position ∧ f ∈ mistakesAt c (history c p) b.id)
    ∧ (∀ x ∈ p.nodes, mistakesAt c (history c p) x.mark.id ≠ [] →
      (p.sized available).dims.get? x.mark.id = none
      ∧ ∀ y ∈ p.nodes, Relation.TransGen (Uses c) y x →
        (p.sized available).dims.get? y.mark.id = none ∧ mistakesAt c (history c p) y.mark.id = [])
    ∧ ∀ id, (mistakesAt c (history c p) id).length ≤ 1 := by
  intro c
  obtain ⟨hD, hds⟩ := domain_program standardPrimitives available hids (c := c) rfl
  have hhistory : History c p.definitions (history c p) (p.sized available) :=
    history_program standardPrimitives available hids
  have hrecord := hhistory.record hD hds
  refine ⟨?_, ?_, ?_⟩
  · intro f hf hkind
    rw [hhistory.findings] at hf
    obtain ⟨⟨s, a⟩, hm, hreports⟩ := mem_flatMap.mp hf
    obtain ⟨b, rfl⟩ := exists_sizing_of_reports hreports
    obtain ⟨d, hd, hbody⟩ :=
      mem_flatMap.mp (hrecord.mem_boxes (mem_append_left _ (mem_sizings.mpr ⟨_, hm, rfl⟩)))
    obtain ⟨-, -, hposition⟩ := (report_of_sizing c s b).eq_of_mistake hreports hkind
    exact ⟨b, box_mem_nodes hd hbody, hposition, mem_mistakesAt.mpr ⟨_, hm, rfl, hreports, hkind⟩⟩
  · intro x hx hmistake
    have hunknown : (p.sized available).dims.get? x.mark.id = none := by
      obtain ⟨f, hf⟩ := exists_mem_of_ne_nil _ hmistake
      obtain ⟨⟨s, a⟩, hm, hid, hreports, hkind⟩ := mem_mistakesAt.mp hf
      obtain ⟨b, rfl⟩ := exists_sizing_of_reports hreports
      have hdim := hrecord.boxes _ hm b rfl
      rw [← hid]
      exact hdim.trans ((report_of_sizing c s b).eq_of_mistake hreports hkind).1
    refine ⟨hunknown, ?_⟩
    intro y hy huses
    -- Along the uses every node is one of the program, and each passes the unknown on to the next.
    induction huses using Relation.TransGen.head_induction_on with
    | single h => exact hrecord.unknown_of_uses hids uiArgs_groups h hy hunknown
    | head h _ ih =>
      exact hrecord.unknown_of_uses hids uiArgs_groups h hy (ih (h.mem_nodes _ available hids hy)).1
  · have hnodup := hrecord.nodup_account hD
    rw [map_append] at hnodup
    exact length_mistakesAt_le (List.nodup_append.mp hnodup).1

/-- The definition `g = (_, _) : _;`. -/
def mismatched : Definition :=
  ⟨markAt 5, "g", [],
    some (.compose (markAt 6) .seq
      (.compose (markAt 7) .par (.ref (markAt 8) "_") (.ref (markAt 9) "_")) (.ref (markAt 10) "_")),
    .start⟩

/-- The program `process = hgroup("x", g); g = (_, _) : _;`. -/
def blameless : Program where
  imports := []
  declarations := []
  definitions :=
    [⟨markAt 1, "process", [],
        some (.call (markAt 2) "hgroup" [.string (markAt 3) "x", .ref (markAt 4) "g"]), .start⟩,
      mismatched]

open Sizing in
/-- In `blameless` the mistake is made in `g`. The reference to it, the group around the reference and `process` have no
dimension because of it, and nothing is reported there. -/
theorem Program.mistakes_once_blameless : let c := programSizing standardPrimitives .empty blameless
    (blameless.nodes.map (·.mark.id)).Nodup
    ∧ (blameless.sized .empty).findings = [⟨⟨1, 6⟩, .badComposition .seq ⟨2, 2⟩ ⟨1, 1⟩⟩]
    ∧ mistakesAt c (history c blameless) 6 ≠ [] ∧ (blameless.sized .empty).dims.get? 6 = none
    ∧ (blameless.sized .empty).dims.get? 1 = none ∧ mistakesAt c (history c blameless) 1 = [] := by
  intro c
  have hids : (blameless.nodes.map (·.mark.id)).Nodup := by decide
  have hmistake : mistakesAt c (history c blameless) 6 ≠ [] := by decide
  have hreferred : c.resolution.userDefinition? 4 = some mismatched := rfl
  obtain ⟨symbol, hsymbol, hkind⟩ : ∃ symbol, c.resolution.symbol? 2 = some symbol ∧ symbol.kind = .ui :=
    ⟨_, rfl, rfl⟩
  -- What uses the box with the mistake, from the inside out.
  have hdefinition : Uses c (.definition mismatched) _ := .body rfl
  have hreference : Uses c (.box (.ref (markAt 4) "g")) _ := .reference "g" hreferred
  have hgroup : Uses c (.box (.call (markAt 2) "hgroup" [.string (markAt 3) "x", .ref (markAt 4) "g"])) _ :=
    .group _ _ hsymbol hkind (by decide)
  have hprocess : Uses c (.definition (blameless.definitions.head (by decide))) _ := .body rfl
  have huses := (((Relation.TransGen.single hdefinition).head hreference).head hgroup).head hprocess
  obtain ⟨-, hunknown, -⟩ := Program.mistakes_once .empty blameless hids
  obtain ⟨hnone, hothers⟩ := hunknown _ (mem_of_getElem? (rfl : blameless.nodes[6]? = some _)) hmistake
  have hfar := hothers _ (mem_of_getElem? (rfl : blameless.nodes[1]? = some _)) huses
  exact ⟨hids, by decide, hmistake, hnone, hfar⟩

end Patchbay
