import Patchbay.Issue
import Patchbay.Program

/-!
# Nodes of programs

The nodes of a program are listed each before its parts. With a node all its parts are nodes of the program.
-/

open List

namespace Patchbay

theorem Box.nodesAll_eq (bs : List Box) : Box.nodesAll bs = bs.flatMap Box.nodes := by
  induction bs with
  | nil => rfl
  | cons b rest ih => rw [Box.nodesAll, ih, flatMap_cons]

theorem Definition.nodesAll_eq (ds : List Definition) : Definition.nodesAll ds = ds.flatMap Definition.nodes := by
  induction ds with
  | nil => rfl
  | cons d rest ih => rw [Definition.nodesAll, ih, flatMap_cons]

theorem Box.nodesAll_append (bs cs : List Box) : Box.nodesAll (bs ++ cs) = Box.nodesAll bs ++ Box.nodesAll cs := by
  simp only [Box.nodesAll_eq, flatMap_append]

theorem Definition.nodesAll_append (ds es : List Definition) :
    Definition.nodesAll (ds ++ es) = Definition.nodesAll ds ++ Definition.nodesAll es := by
  simp only [Definition.nodesAll_eq, flatMap_append]

/-- A node and all below it, each before its parts. -/
def Node.nodes : Node → List Node
  | .program p => p.nodes
  | .definition d => d.nodes
  | .box b => b.nodes
  | other => [other]

/-- Below a node are its parts and what is below them. -/
theorem Node.nodes_eq (n : Node) : n.nodes = n :: n.children.flatMap Node.nodes := by
  cases n with
  | importing | declaration => rfl
  | program p =>
    simp only [Node.nodes, Program.nodes, children, Definition.nodesAll_eq, flatMap_append, flatMap_map]
    simp only [← map_eq_flatMap]
  | definition d =>
    match d with
    | ⟨_, _, _, none, _⟩ => rfl
    | ⟨_, _, _, some body, _⟩ => simp [Node.nodes, Definition.nodes, children]
  | box b =>
    cases b with
    | ref | number | string => rfl
    | call mark name args => simp [Node.nodes, Box.nodes, Box.nodesAll_eq, children, flatMap_map]
    | compose mark op left right => simp [Node.nodes, Box.nodes, children]
    | block mark body locals =>
      simp [Node.nodes, Box.nodes, Definition.nodesAll_eq, children, flatMap_map]

theorem Node.mem_nodes (n : Node) : n ∈ n.nodes := by
  rw [n.nodes_eq]
  exact mem_cons_self

/-- A box is the first of its own nodes. -/
theorem Box.mem_nodes (b : Box) : Node.box b ∈ b.nodes := (Node.box b).mem_nodes

theorem Definition.mem_nodes (d : Definition) : Node.definition d ∈ d.nodes := (Node.definition d).mem_nodes

variable {d : Definition} {n m : Node} {nodes : List Node}

theorem Definition.mem_nodesAll {ds : List Definition} (h : d ∈ ds) :
    Node.definition d ∈ Definition.nodesAll ds := by
  rw [Definition.nodesAll_eq]
  exact mem_flatMap.mpr ⟨d, h, d.mem_nodes⟩

theorem Program.mem_nodes_of_definition (p : Program) (h : d ∈ p.definitions) :
    Node.definition d ∈ p.nodes := by
  rw [Program.nodes]
  exact mem_cons_of_mem _ (mem_append_right _ (Definition.mem_nodesAll h))

/-! ## Parts -/

theorem Node.sizeOf_lt_of_mem_children (h : m ∈ n.children) : sizeOf m < sizeOf n := by
  have hdefinition {d : Definition} {ds : List Definition} (hd : d ∈ ds) :
      sizeOf (Node.definition d) ≤ sizeOf ds := by
    have := sizeOf_lt_of_mem hd
    simp only [definition.sizeOf_spec]
    omega
  cases n with
  | importing | declaration => cases h
  | program p =>
    obtain ⟨imports, declarations, definitions⟩ := p
    simp only [children, mem_append, mem_map] at h
    simp only [program.sizeOf_spec, Program.mk.sizeOf_spec]
    rcases h with (⟨x, hx, rfl⟩ | ⟨x, hx, rfl⟩) | ⟨d, hd, rfl⟩
    · have := sizeOf_lt_of_mem hx
      simp only [importing.sizeOf_spec]
      omega
    · have := sizeOf_lt_of_mem hx
      simp only [declaration.sizeOf_spec]
      omega
    · have := hdefinition hd
      omega
  | definition d =>
    match d, h with
    | ⟨mark, name, params, some body, stop⟩, h =>
      rw [mem_singleton.mp h]
      simp only [box.sizeOf_spec, definition.sizeOf_spec, Definition.mk.sizeOf_spec, Option.some.sizeOf_spec]
      omega
  | box b =>
    cases b with
    | ref | number | string => cases h
    | call mark name args =>
      obtain ⟨b, hb, rfl⟩ := mem_map.mp h
      have := sizeOf_lt_of_mem hb
      simp only [box.sizeOf_spec, Box.call.sizeOf_spec]
      omega
    | compose mark op left right =>
      simp only [children, mem_cons, not_mem_nil, or_false] at h
      rcases h with rfl | rfl <;> simp only [box.sizeOf_spec, Box.compose.sizeOf_spec] <;> omega
    | block mark body locals =>
      simp only [children, mem_cons, mem_map] at h
      simp only [box.sizeOf_spec, Box.block.sizeOf_spec]
      rcases h with rfl | ⟨d, hd, rfl⟩
      · simp only [box.sizeOf_spec]
        omega
      · have := hdefinition hd
        omega

theorem Node.ne_program_of_mem_children (h : m ∈ n.children) (p : Program) : m ≠ .program p := by
  rintro rfl
  cases n with
  | box b => cases b <;> simp [children] at h
  | program | importing | declaration | definition => simp [children] at h

/-- What holds of a node whenever it holds of its parts holds of every node. -/
theorem Node.induct {P : Node → Prop} (h : ∀ n : Node, (∀ m ∈ n.children, P m) → P n) (n : Node) : P n :=
  h n fun m _ => Node.induct h m
termination_by sizeOf n
decreasing_by exact Node.sizeOf_lt_of_mem_children ‹_›

/-- The node at an address, which says what part to take at each level on the way down. -/
def Node.at? : Node → List Nat → Option Node
  | n, [] => some n
  | n, i :: address => n.children[i]?.bind fun m => m.at? address

/-- All parts of the nodes in a list are in the list. -/
def PartsIn (nodes : List Node) : Prop := ∀ n ∈ nodes, ∀ m ∈ n.children, m ∈ nodes

theorem Node.partsIn_nodes (n : Node) : PartsIn n.nodes := by
  induction n using Node.induct with
  | h n ih =>
    have hsub : ∀ m ∈ n.children, m.nodes ⊆ n.nodes := by
      intro m hm k hk
      rw [n.nodes_eq]
      exact mem_cons_of_mem _ (mem_flatMap.mpr ⟨m, hm, hk⟩)
    intro k hk m hm
    rw [n.nodes_eq] at hk
    rcases mem_cons.mp hk with rfl | hk
    · exact hsub m hm m.mem_nodes
    · obtain ⟨l, hl, hk⟩ := mem_flatMap.mp hk
      exact hsub l hl (ih l hl k hk m hm)

theorem Box.partsIn_nodes (b : Box) : PartsIn b.nodes := (Node.box b).partsIn_nodes

theorem Definition.partsIn_nodes (d : Definition) : PartsIn d.nodes := (Node.definition d).partsIn_nodes

/-- With a node all its parts are nodes of the program. -/
theorem Program.partsIn_nodes (p : Program) : PartsIn p.nodes := (Node.program p).partsIn_nodes

/-- A list with all parts of its nodes has all that is below them. -/
theorem PartsIn.nodes_subset (h : PartsIn nodes) (n : Node) (hn : n ∈ nodes) : n.nodes ⊆ nodes := by
  induction n using Node.induct with
  | h n ih =>
    rw [n.nodes_eq, cons_subset]
    refine ⟨hn, ?_⟩
    intro k hk
    obtain ⟨m, hm, hk⟩ := mem_flatMap.mp hk
    exact ih m hm (h n hn m hm) hk

theorem PartsIn.nodes_box (h : PartsIn nodes) (b : Box) (hb : Node.box b ∈ nodes) :
    b.nodes ⊆ nodes := h.nodes_subset (.box b) hb

theorem PartsIn.nodes_definition (h : PartsIn nodes) (d : Definition)
    (hd : Node.definition d ∈ nodes) : d.nodes ⊆ nodes := h.nodes_subset (.definition d) hd

theorem PartsIn.nodes_definitions (h : PartsIn nodes) (ds : List Definition)
    (hds : ∀ d ∈ ds, Node.definition d ∈ nodes) : Definition.nodesAll ds ⊆ nodes := by
  intro n hn
  rw [Definition.nodesAll_eq] at hn
  obtain ⟨d, hd, hn⟩ := mem_flatMap.mp hn
  exact h.nodes_definition d (hds d hd) hn

/-! ## Validity -/

/-- What could not be read makes all around it invalid: a valid node has no invalid box as a part. -/
def Node.Whole (n : Node) : Prop := n.mark.invalid = false → ∀ b, Node.box b ∈ n.children → b.invalid = false

/-- The list holds what is met on the way down from it, where invalid definitions are not entered. -/
structure Entered (nodes : List Node) : Prop where
  box : ∀ b, Node.box b ∈ nodes → ∀ m ∈ (Node.box b).children, m ∈ nodes
  definition : ∀ d, Node.definition d ∈ nodes → d.invalid = false → ∀ m ∈ (Node.definition d).children, m ∈ nodes

theorem PartsIn.entered (h : PartsIn nodes) : Entered nodes :=
  ⟨fun b hb => h (.box b) hb, fun d hd _ => h (.definition d) hd⟩

/-! ## Names -/

/-- The name that a box refers to. -/
def Box.name? : Box → Option String
  | .ref _ name => some name
  | .call _ name _ => some name
  | _ => none

/-- The name that an issue is about, if it is that of a box. -/
def Issue.named? : Issue → Option String
  | .undefinedName name _ => some name
  | .tooManySignals name _ _ => some name
  | .argumentCount name _ _ => some name
  | _ => none

end Patchbay
