import Mathlib.Data.List.Flatten
import Patchbay.Proofs.Sizing.Evaluation

/-!
# The nodes that are sized

The definitions of a program are sized, and the local definitions of every block that is sized. In a definition that
could be read its body is sized, and with a box its operands. The variable and the count of an iteration are not sized.
All of them are nodes of the program, so their numbers are different if those of the program are.
-/

open List

namespace Patchbay.Sizing

mutual

/-- The boxes that are sized with a box, itself first. -/
def boxesIn (c : Context) : Box → List Box
  | .compose mark op left right => .compose mark op left right :: (boxesIn c left ++ boxesIn c right)
  | .block mark body locals => .block mark body locals :: boxesIn c body
  | .call mark name args =>
    .call mark name args ::
      if (iterationParts? c mark.id name args).isSome then boxesInIteration c args else boxesInAll c args
  | other => [other]

/-- The boxes that are sized with boxes. -/
def boxesInAll (c : Context) : List Box → List Box
  | [] => []
  | b :: bs => boxesIn c b ++ boxesInAll c bs

/-- The boxes that are sized with the arguments of an iteration: those of its body. -/
def boxesInIteration (c : Context) : List Box → List Box
  | [_, _, body] => boxesIn c body
  | _ => []

end

mutual

/-- The definitions that are sized with a box: those of its blocks. -/
def definitionsIn (c : Context) : Box → List Definition
  | .compose _ _ left right => definitionsIn c left ++ definitionsIn c right
  | .block _ body locals => definitionsIn c body ++ definitionsOfAll c locals
  | .call mark name args =>
    if (iterationParts? c mark.id name args).isSome then definitionsInIteration c args
    else definitionsInAll c args
  | _ => []

/-- The definitions that are sized with boxes. -/
def definitionsInAll (c : Context) : List Box → List Definition
  | [] => []
  | b :: bs => definitionsIn c b ++ definitionsInAll c bs

/-- The definitions that are sized with the arguments of an iteration. -/
def definitionsInIteration (c : Context) : List Box → List Definition
  | [_, _, body] => definitionsIn c body
  | _ => []

/-- A definition and those that are sized with its body, if it could be read. -/
def definitionsOf (c : Context) : Definition → List Definition
  | ⟨mark, name, params, none, stop⟩ => [⟨mark, name, params, none, stop⟩]
  | ⟨mark, name, params, some body, stop⟩ =>
    ⟨mark, name, params, some body, stop⟩ :: if mark.invalid then [] else definitionsIn c body

/-- Definitions and those that are sized with their bodies. -/
def definitionsOfAll (c : Context) : List Definition → List Definition
  | [] => []
  | d :: ds => definitionsOf c d ++ definitionsOfAll c ds

end

/-- The boxes that are sized with the body of a definition. -/
def bodyBoxes (c : Context) (d : Definition) : List Box :=
  match d.validBody? with
  | none => []
  | some body => boxesIn c body

/-- The definitions of a program that are sized. -/
def sizedDefinitions (c : Context) (p : Program) : List Definition := definitionsOfAll c p.definitions

/-- The boxes of a program that are sized. -/
def sizedBoxes (c : Context) (p : Program) : List Box := (sizedDefinitions c p).flatMap (bodyBoxes c)

/-- The numbers of a definition and of the boxes that are sized with it. -/
def numbers (c : Context) (d : Definition) : List Nat := d.id :: (bodyBoxes c d).map Box.id

variable {c : Context}

/-! ## Bodies -/

variable {b body : Box} {p : Program} {P : Box → Prop} {d : Definition}

theorem bodyBoxes_of_none (h : d.validBody? = none) : bodyBoxes c d = [] := by
  rw [bodyBoxes, h]

theorem bodyBoxes_of_some (h : d.validBody? = some body) : bodyBoxes c d = boxesIn c body := by
  rw [bodyBoxes, h]

theorem validBody?_of_invalid (h : d.mark.invalid) : d.validBody? = none := if_pos h

theorem validBody?_of_valid (h : d.mark.invalid = false) : d.validBody? = d.body := by
  rw [Definition.validBody?, Definition.invalid, h, if_neg Bool.false_ne_true]

/-- A definition without a body has none that could be read. -/
theorem validBody?_of_body_none (h : d.body = none) : d.validBody? = none := by
  rw [Definition.validBody?, h, ite_self]

theorem definitionsOf_of_none (h : d.validBody? = none) : definitionsOf c d = [d] := by
  match d, h with
  | ⟨_, _, _, none, _⟩, _ => rfl
  | ⟨mark, name, params, some body, stop⟩, h =>
    have hinvalid : mark.invalid := by
      by_contra hvalid
      rw [validBody?_of_valid (Bool.eq_false_iff.mpr hvalid)] at h
      simp at h
    rw [definitionsOf, if_pos hinvalid]

theorem definitionsOf_of_some (h : d.validBody? = some body) : definitionsOf c d = d :: definitionsIn c body := by
  match d, h with
  | ⟨mark, name, params, none, stop⟩, h => exact absurd (h.symm.trans (validBody?_of_body_none rfl)) (by simp)
  | ⟨mark, name, params, some body', stop⟩, h =>
    cases hinvalid : mark.invalid with
    | true => exact absurd (h.symm.trans (validBody?_of_invalid hinvalid)) (by simp)
    | false =>
      obtain rfl : body' = body := Option.some.inj ((validBody?_of_valid hinvalid).symm.trans h)
      rw [definitionsOf, hinvalid, if_neg Bool.false_ne_true]

/-! ## Operands -/

theorem boxesInAll_eq (bs : List Box) : boxesInAll c bs = bs.flatMap (boxesIn c) := by
  induction bs with
  | nil => rfl
  | cons b rest ih => rw [boxesInAll, ih, flatMap_cons]

theorem definitionsInAll_eq (bs : List Box) : definitionsInAll c bs = bs.flatMap (definitionsIn c) := by
  induction bs with
  | nil => rfl
  | cons b rest ih => rw [definitionsInAll, ih, flatMap_cons]

theorem definitionsOfAll_eq (ds : List Definition) : definitionsOfAll c ds = ds.flatMap (definitionsOf c) := by
  induction ds with
  | nil => rfl
  | cons d rest ih => rw [definitionsOfAll, ih, flatMap_cons]

theorem exists_of_iterationParts? {id : Nat} {name : String} {args : List Box} {count : Box}
    (h : iterationParts? c id name args = some (count, body)) : ∃ binder, args = [binder, count, body] := by
  unfold iterationParts? at h
  split at h
  · split at h
    · obtain ⟨rfl, rfl⟩ := Prod.mk.inj (Option.some.inj h)
      exact ⟨_, rfl⟩
    · simp at h
  · simp at h

/-- With a box its operands are sized, and all that is sized with them. -/
theorem boxesIn_eq (b : Box) : boxesIn c b = b :: (operands c b).flatMap (boxesIn c) := by
  cases b with
  | ref | number | string => rfl
  | compose mark op left right => simp [boxesIn, operands]
  | block mark body locals => simp [boxesIn, operands]
  | call mark name args =>
    rw [boxesIn, operands]
    cases hparts : iterationParts? c mark.id name args with
    | none => simp [boxesInAll_eq]
    | some parts =>
      obtain ⟨count, body⟩ := parts
      obtain ⟨binder, rfl⟩ := exists_of_iterationParts? hparts
      simp [boxesInIteration]

/-- The definitions that a box declares. -/
def localsOf : Box → List Definition
  | .block _ _ locals => locals
  | _ => []

theorem localsOf_call (mark : Mark) (name : String) (args : List Box) : localsOf (.call mark name args) = [] := rfl

theorem exists_of_mem_localsOf (h : d ∈ localsOf b) : ∃ mark body locals, b = .block mark body locals ∧ d ∈ locals := by
  cases b with
  | block mark body locals => exact ⟨mark, body, locals, rfl, h⟩
  | ref | number | string | call | compose => cases h

/-- With a box the definitions that it declares are sized, and those that are sized with its operands. -/
theorem definitionsIn_eq (b : Box) :
    definitionsIn c b = (operands c b).flatMap (definitionsIn c) ++ (localsOf b).flatMap (definitionsOf c) := by
  cases b with
  | ref | number | string => rfl
  | compose mark op left right => simp [definitionsIn, operands, localsOf]
  | block mark body locals => simp [definitionsIn, operands, localsOf, definitionsOfAll_eq]
  | call mark name args =>
    rw [definitionsIn, operands, localsOf_call, flatMap_nil, append_nil]
    cases hparts : iterationParts? c mark.id name args with
    | none => simp [definitionsInAll_eq]
    | some parts =>
      obtain ⟨count, body⟩ := parts
      obtain ⟨binder, rfl⟩ := exists_of_iterationParts? hparts
      simp [definitionsInIteration]

/-- Operands are parts of a box. -/
theorem box_mem_children {x : Box} (h : x ∈ operands c b) : Node.box x ∈ (Node.box b).children := by
  cases b with
  | ref | number | string => cases h
  | compose mark op left right => simpa [operands, Node.children] using h
  | block mark body locals =>
    obtain rfl : x = body := by simpa [operands] using h
    exact mem_cons_self
  | call mark name args =>
    refine mem_map_of_mem ?_
    rw [operands] at h
    split at h
    · rename_i hparts
      obtain ⟨binder, rfl⟩ := exists_of_iterationParts? hparts
      simp [mem_singleton.mp h]
    · exact h

theorem definition_mem_children (h : d ∈ localsOf b) : Node.definition d ∈ (Node.box b).children := by
  obtain ⟨mark, body, locals, rfl, hd⟩ := exists_of_mem_localsOf h
  exact mem_cons_of_mem _ (mem_map_of_mem hd)

theorem children_of_validBody? (h : d.validBody? = some body) : (Node.definition d).children = [.box body] := by
  cases hinvalid : d.mark.invalid with
  | true => exact absurd (h.symm.trans (validBody?_of_invalid hinvalid)) (by simp)
  | false => simp [Node.children, (validBody?_of_valid hinvalid).symm.trans h]

/-- Induction along what is sized: from the operands and the declared definitions to a box, from the body to a
definition. -/
theorem sized_induct (c : Context) {Q : Definition → Prop}
    (hbox : ∀ b, (∀ x ∈ operands c b, P x) → (∀ d ∈ localsOf b, Q d) → P b)
    (hdefinition : ∀ d, (∀ body, d.validBody? = some body → P body) → Q d) : (∀ b, P b) ∧ ∀ d, Q d := by
  have hall : ∀ n : Node, (∀ b, n = .box b → P b) ∧ ∀ d, n = .definition d → Q d := by
    refine Node.induct fun n ih => ⟨?_, ?_⟩
    · rintro b rfl
      exact hbox b (fun x hx => (ih _ (box_mem_children hx)).1 x rfl)
        fun d hd => (ih _ (definition_mem_children hd)).2 d rfl
    · rintro d rfl
      exact hdefinition d fun body hbody => (ih _ (by simp [children_of_validBody? hbody])).1 body rfl
  exact ⟨fun b => (hall _).1 b rfl, fun d => (hall _).2 d rfl⟩

/-- What holds for a box and passes on to operands holds for all boxes that are sized with it. -/
theorem of_mem_boxesIn (hP : ∀ b, P b → ∀ x ∈ operands c b, P x) (b : Box) (hb : P b) : ∀ x ∈ boxesIn c b, P x := by
  refine (sized_induct c (P := fun b => P b → ∀ x ∈ boxesIn c b, P x) (Q := fun _ => True) ?_
    fun _ _ => trivial).1 b hb
  intro b ih _ hb x hx
  rw [boxesIn_eq] at hx
  rcases mem_cons.mp hx with rfl | hx
  · exact hb
  · obtain ⟨y, hy, hxy⟩ := mem_flatMap.mp hx
    exact ih y hy (hP b hb y hy) x hxy

/-! ## Sized nodes -/

/-- A definition and the boxes that are sized with it, as nodes. -/
def definitionNodes (c : Context) (d : Definition) : List Node := .definition d :: (bodyBoxes c d).map .box

/-- The boxes sized with a box, and the definitions sized with it with their boxes, as nodes. -/
def boxNodes (c : Context) (b : Box) : List Node :=
  (boxesIn c b).map .box ++ (definitionsIn c b).flatMap (definitionNodes c)

/-- The nodes of the operands of a box and of what it declares are nodes of the box. -/
theorem sublist_nodes (b : Box) :
    (Node.box b :: ((operands c b).flatMap Box.nodes ++ (localsOf b).flatMap Definition.nodes)).Sublist b.nodes := by
  cases b with
  | ref | number | string => exact Sublist.refl _
  | compose mark op left right => simp [operands, localsOf, Box.nodes]
  | block mark body locals => simp [operands, localsOf, Box.nodes, Definition.nodesAll_eq]
  | call mark name args =>
    rw [Box.nodes, Box.nodesAll_eq, localsOf_call, flatMap_nil,
      append_nil, operands]
    refine Sublist.cons_cons _ ?_
    split
    · rename_i hparts
      obtain ⟨binder, rfl⟩ := exists_of_iterationParts? hparts
      exact ((sublist_cons_self _ _).trans (sublist_cons_self _ _)).flatMap _
    · exact Sublist.refl _

theorem subperm_flatMap {α β : Type} {f g : α → List β} {l : List α} (h : ∀ x ∈ l, (f x).Subperm (g x)) :
    (l.flatMap f).Subperm (l.flatMap g) := by
  induction l with
  | nil => exact Subperm.refl _
  | cons x rest ih =>
    rw [flatMap_cons, flatMap_cons]
    exact (h x mem_cons_self).append (ih fun y hy => h y (mem_cons_of_mem _ hy))

/-- What is sized with a box is among its nodes, and what is sized with a definition among its own. -/
theorem subperm_nodes : (∀ b, (boxNodes c b).Subperm b.nodes) ∧
    ∀ d, ((definitionsOf c d).flatMap (definitionNodes c)).Subperm d.nodes := by
  refine sized_induct c ?_ ?_
  · intro b hboxes hlocals
    have hperm : (boxNodes c b).Perm (Node.box b :: ((operands c b).flatMap (boxNodes c) ++
        (localsOf b).flatMap fun d => (definitionsOf c d).flatMap (definitionNodes c))) := by
      rw [boxNodes, boxesIn_eq, definitionsIn_eq, map_cons, flatMap_append, map_flatMap,
        flatMap_assoc, flatMap_assoc, cons_append, ← List.append_assoc]
      exact ((flatMap_append_perm _ _ _).append_right _).cons _
    exact hperm.subperm.trans (((subperm_cons _).mpr
      ((subperm_flatMap hboxes).append (subperm_flatMap hlocals))).trans (sublist_nodes b).subperm)
  · intro d hbody
    cases hvalid : d.validBody? with
    | none =>
      rw [definitionsOf_of_none hvalid, flatMap_singleton, definitionNodes, bodyBoxes_of_none hvalid]
      exact singleton_subperm_iff.mpr d.mem_nodes
    | some body =>
      rw [definitionsOf_of_some hvalid, flatMap_cons, definitionNodes, bodyBoxes_of_some hvalid]
      have hnodes : d.nodes = .definition d :: body.nodes := by
        rw [← Node.nodes, Node.nodes_eq, children_of_validBody? hvalid]
        exact congrArg _ (flatMap_singleton _ _)
      rw [hnodes]
      exact (subperm_cons _).mpr (hbody body hvalid)

/-- What is sized in a program is among its nodes. -/
theorem subperm_sizedNodes (c : Context) (p : Program) :
    ((sizedDefinitions c p).flatMap (definitionNodes c)).Subperm p.nodes := by
  have hsub : (Definition.nodesAll p.definitions).Sublist p.nodes := by
    rw [Program.nodes]
    exact (sublist_append_right _ _).cons _
  rw [sizedDefinitions, definitionsOfAll_eq, flatMap_assoc]
  refine (subperm_flatMap fun d _ => subperm_nodes.2 d).trans ?_
  rw [← Definition.nodesAll_eq]
  exact hsub.subperm

theorem definition_mem_nodes (hd : d ∈ sizedDefinitions c p) : Node.definition d ∈ p.nodes :=
  (subperm_sizedNodes c p).subset (mem_flatMap.mpr ⟨d, hd, mem_cons_self⟩)

theorem box_mem_nodes (hd : d ∈ sizedDefinitions c p) (hb : b ∈ bodyBoxes c d) : Node.box b ∈ p.nodes :=
  (subperm_sizedNodes c p).subset
    (mem_flatMap.mpr ⟨d, hd, mem_cons_of_mem _ (mem_map_of_mem hb)⟩)

/-- No invalid box is sized, if invalid boxes make all around them invalid. -/
theorem valid_of_mem_bodyBoxes (hwhole : ∀ n ∈ p.nodes, n.Whole) (hd : d ∈ sizedDefinitions c p)
    (hb : b ∈ bodyBoxes c d) : b.invalid = false := by
  have hnode := definition_mem_nodes hd
  unfold bodyBoxes Definition.validBody? at hb
  cases hinvalid : d.invalid with
  | true => simp [hinvalid] at hb
  | false =>
    cases hbody : d.body with
    | none => simp [hinvalid, hbody] at hb
    | some body =>
      have hchild : Node.box body ∈ (Node.definition d).children := by simp [Node.children, hbody]
      have hbox : Node.box body ∈ p.nodes ∧ body.invalid = false :=
        ⟨p.partsIn_nodes _ hnode _ hchild, hwhole _ hnode hinvalid body hchild⟩
      have hall : ∀ x ∈ boxesIn c body, Node.box x ∈ p.nodes ∧ x.invalid = false := by
        refine of_mem_boxesIn ?_ body hbox
        rintro x ⟨hx, hvalid⟩ y hy
        have hy' := box_mem_children hy
        exact ⟨p.partsIn_nodes _ hx _ hy', hwhole _ hx hvalid y hy'⟩
      exact (hall b (by simpa [hinvalid, hbody] using hb)).2

theorem map_definitionNodes (c : Context) (d : Definition) :
    (definitionNodes c d).map (·.mark.id) = numbers c d := by
  rw [definitionNodes, map_cons, map_map]
  rfl

/-- The numbers of the sized nodes of a program are among those of its nodes. -/
theorem subperm_sizedDefinitions (c : Context) (p : Program) :
    ((sizedDefinitions c p).flatMap (numbers c)).Subperm (p.nodes.map (·.mark.id)) := by
  obtain ⟨l, hperm, hsublist⟩ := subperm_sizedNodes c p
  refine ⟨l.map (·.mark.id), ?_, hsublist.map _⟩
  have hmap := hperm.map (·.mark.id)
  rw [map_flatMap] at hmap
  simpa only [map_definitionNodes] using hmap

/-! ## Local definitions -/

/-- The local definitions of the blocks among boxes are in a list. -/
def HasLocals (boxes : List Box) (ds : List Definition) : Prop :=
  ∀ mark body locals, Box.block mark body locals ∈ boxes → locals ⊆ ds

theorem subset_definitionsOfAll (ds : List Definition) : ds ⊆ definitionsOfAll c ds := by
  intro d hd
  rw [definitionsOfAll_eq]
  refine mem_flatMap.mpr ⟨d, hd, ?_⟩
  match d with
  | ⟨_, _, _, none, _⟩ => exact mem_cons_self
  | ⟨_, _, _, some _, _⟩ => exact mem_cons_self

/-! ## All that is sized -/

/-- Definitions with the boxes of their bodies, and with the local definitions of these boxes. -/
structure Closed (c : Context) (S : Definition → Prop) (T : Box → Prop) : Prop where
  boxes : ∀ d, S d → ∀ b ∈ bodyBoxes c d, T b
  locals : ∀ mark body locals, T (.block mark body locals) → ∀ d ∈ locals, S d

variable {S : Definition → Prop} {T : Box → Prop}

/-- What is closed includes all definitions that are sized with a box or with a definition. -/
theorem mem_of_closed (h : Closed c S T) :
    (∀ b, (∀ x ∈ boxesIn c b, T x) → ∀ d ∈ definitionsIn c b, S d) ∧ ∀ d, S d → ∀ e ∈ definitionsOf c d, S e := by
  refine sized_induct c ?_ ?_
  · intro b hboxes hlocals hb d hd
    rw [boxesIn_eq] at hb
    rw [definitionsIn_eq] at hd
    rcases mem_append.mp hd with hd | hd
    · obtain ⟨x, hx, hd⟩ := mem_flatMap.mp hd
      exact hboxes x hx (fun y hy => hb y (mem_cons_of_mem _ (mem_flatMap.mpr ⟨x, hx, hy⟩))) d hd
    · obtain ⟨e, he, hde⟩ := mem_flatMap.mp hd
      obtain ⟨mark, body, locals, rfl, he'⟩ := exists_of_mem_localsOf he
      exact hlocals e he (h.locals mark body locals (hb _ mem_cons_self) e he') d hde
  · intro d hbody hd e he
    cases hvalid : d.validBody? with
    | none =>
      rw [definitionsOf_of_none hvalid] at he
      exact mem_singleton.mp he ▸ hd
    | some body =>
      rw [definitionsOf_of_some hvalid] at he
      rcases mem_cons.mp he with rfl | he
      · exact hd
      · exact hbody body hvalid (fun x hx => h.boxes d hd x (bodyBoxes_of_some hvalid ▸ hx)) e he

theorem definitionsOfAll_of_closed (h : Closed c S T) (ds : List Definition) (hds : ∀ d ∈ ds, S d) :
    ∀ e ∈ definitionsOfAll c ds, S e := by
  intro e he
  rw [definitionsOfAll_eq] at he
  obtain ⟨d, hd, he⟩ := mem_flatMap.mp he
  exact (mem_of_closed h).2 d (hds d hd) e he

end Patchbay.Sizing
