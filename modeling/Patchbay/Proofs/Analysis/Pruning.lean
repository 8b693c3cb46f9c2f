import Patchbay.Proofs.Analysis.Likeness
import Patchbay.Proofs.Scope.Pruning

/-!
# What stands in invalid definitions does not matter

A program and the pruned program differ only in what stands in invalid definitions. The same is bound in both, and
nothing within these definitions, since nodes have different numbers. So the programs are alike, and all later stages
come to the same result. Programs that are the same after pruning have the same results.
-/

open List

namespace Patchbay

/-! ## Nodes of pruned programs -/

/-- The node stands in an invalid definition among the nodes. -/
def Node.Hidden (nodes : List Node) (n : Node) : Prop :=
  ∃ d body, Node.definition d ∈ nodes ∧ d.mark.invalid = true ∧ d.body = some body ∧ n ∈ body.nodes

/-- Of nodes with different numbers some are left, and none of these stands in an invalid definition. -/
structure Unhidden (nodes left : List Node) : Prop where
  sublist : (left.map (·.mark.id)).Sublist (nodes.map (·.mark.id))
  hidden : (nodes.map (·.mark.id)).Nodup → ∀ n, n.Hidden nodes → n ∈ nodes ∧ n.mark.id ∉ left.map (·.mark.id)

namespace Unhidden

variable {nodes nodes' left left' : List Node}

theorem nil : Unhidden [] [] := by
  refine ⟨Sublist.refl _, ?_⟩
  rintro _ n ⟨d, body, hd, -⟩
  cases hd

/-- The numbers of different nodes are not mixed up. -/
theorem append (h : Unhidden nodes left) (h' : Unhidden nodes' left') : Unhidden (nodes ++ nodes') (left ++ left') := by
  refine ⟨?_, ?_⟩
  · rw [map_append, map_append]
    exact h.sublist.append h'.sublist
  · intro hids n hn
    rw [map_append, List.nodup_append] at hids
    obtain ⟨hnodup, hnodup', hdisjoint⟩ := hids
    obtain ⟨d, body, hd, hinvalid, hbody, hmem⟩ := hn
    rw [map_append, mem_append, mem_append]
    rcases mem_append.mp hd with hd | hd
    · obtain ⟨hn, hnot⟩ := h.hidden hnodup n ⟨d, body, hd, hinvalid, hbody, hmem⟩
      refine ⟨.inl hn, not_or.mpr ⟨hnot, fun hleft => ?_⟩⟩
      exact hdisjoint _ (mem_map_of_mem hn) _ (h'.sublist.subset hleft) rfl
    · obtain ⟨hn, hnot⟩ := h'.hidden hnodup' n ⟨d, body, hd, hinvalid, hbody, hmem⟩
      refine ⟨.inr hn, not_or.mpr ⟨fun hleft => ?_, hnot⟩⟩
      exact hdisjoint _ (h.sublist.subset hleft) _ (mem_map_of_mem hn) rfl

/-- A node that is no invalid definition hides nothing. -/
theorem cons (h : Unhidden nodes left) {m m' : Node} (hmark : m'.mark = m.mark)
    (hvalid : ∀ d, m = .definition d → d.mark.invalid = false) : Unhidden (m :: nodes) (m' :: left) := by
  have hm : Unhidden [m] [m'] := by
    refine ⟨by simp [hmark], ?_⟩
    rintro _ n ⟨d, body, hd, hinvalid, -⟩
    have hfalse := hvalid d (mem_singleton.mp hd).symm
    exact absurd (hfalse.symm.trans hinvalid) (by simp)
  exact hm.append h

/-- Of a definition with a body nothing may be left but itself. -/
theorem singleton (body : Box) {m m' : Node} (hmark : m'.mark = m.mark) (hm : m.children = [.box body]) :
    Unhidden (m :: body.nodes) [m'] := by
  refine ⟨by simp [hmark], ?_⟩
  rintro hids n ⟨d, inner, hd, -, hinner, hmem⟩
  have hbox : Node.box inner ∈ (Node.definition d).children := by simp [Node.children, hinner]
  have hn : n ∈ body.nodes := by
    rcases mem_cons.mp hd with rfl | hd
    · rw [hm, mem_singleton] at hbox
      exact Node.box.inj hbox ▸ hmem
    · exact body.partsIn_nodes.nodes_box inner (body.partsIn_nodes _ hd _ hbox) hmem
  rw [map_cons, nodup_cons] at hids
  refine ⟨mem_cons_of_mem _ hn, ?_⟩
  rw [map_singleton, mem_singleton, hmark]
  intro heq
  exact hids.1 (heq ▸ mem_map_of_mem hn)

/-- Where there are no definitions all may be left. -/
theorem refl (h : ∀ d, Node.definition d ∉ nodes) : Unhidden nodes nodes := by
  refine ⟨Sublist.refl _, ?_⟩
  rintro _ n ⟨d, body, hd, -⟩
  exact absurd hd (h d)

end Unhidden

mutual

theorem Box.unhidden (b : Box) : Unhidden b.nodes b.pruned.nodes := by
  cases b with
  | ref | number | string => exact Unhidden.nil.cons rfl (by simp)
  | call mark name args =>
    rw [Box.pruned, Box.nodes, Box.nodes]
    exact (Box.unhiddenAll args).cons rfl (by simp)
  | compose mark op left right =>
    rw [Box.pruned, Box.nodes, Box.nodes]
    exact (left.unhidden.append right.unhidden).cons rfl (by simp)
  | block mark body locals =>
    rw [Box.pruned, Box.nodes, Box.nodes]
    exact (body.unhidden.append (Definition.unhiddenAll locals)).cons rfl (by simp)
termination_by structural b

theorem Box.unhiddenAll (bs : List Box) : Unhidden (Box.nodesAll bs) (Box.nodesAll (Box.prunedAll bs)) := by
  cases bs with
  | nil => exact .nil
  | cons b rest =>
    rw [Box.prunedAll, Box.nodesAll, Box.nodesAll]
    exact b.unhidden.append (Box.unhiddenAll rest)
termination_by structural bs

theorem Definition.unhidden (d : Definition) : Unhidden d.nodes d.pruned.nodes := by
  match d with
  | ⟨mark, name, params, none, stop⟩ =>
    rw [Definition.pruned]
    split
    · refine ⟨Sublist.refl _, ?_⟩
      rintro _ n ⟨d, body, hd, -, hbody, -⟩
      obtain rfl := Node.definition.inj (mem_singleton.mp hd)
      simp at hbody
    · rename_i hvalid
      refine Unhidden.nil.cons rfl ?_
      rintro d hd
      obtain rfl := Node.definition.inj hd
      simpa using hvalid
  | ⟨mark, name, params, some body, stop⟩ =>
    rw [Definition.pruned, Definition.nodes]
    split
    · exact .singleton body rfl rfl
    · rename_i hvalid
      rw [Definition.nodes]
      refine body.unhidden.cons rfl ?_
      rintro d hd
      obtain rfl := Node.definition.inj hd
      simpa using hvalid
termination_by structural d

theorem Definition.unhiddenAll (ds : List Definition) :
    Unhidden (Definition.nodesAll ds) (Definition.nodesAll (Definition.prunedAll ds)) := by
  cases ds with
  | nil => exact .nil
  | cons d rest =>
    rw [Definition.prunedAll, Definition.nodesAll, Definition.nodesAll]
    exact d.unhidden.append (Definition.unhiddenAll rest)
termination_by structural ds

end

theorem Program.unhidden (p : Program) : Unhidden p.nodes p.pruned.nodes := by
  have himports : Unhidden (p.imports.map .importing) (p.imports.map .importing) := .refl (by simp)
  have hdeclarations : Unhidden (p.declarations.map .declaration) (p.declarations.map .declaration) := .refl (by simp)
  rw [Program.nodes, Program.nodes]
  exact ((himports.append hdeclarations).append (Definition.unhiddenAll p.definitions)).cons rfl (by simp)

/-! ## Nothing is bound in invalid definitions -/

/-- Nothing is bound in the invalid definitions among the nodes. -/
def Resolution.Skips (r : Resolution) (nodes : List Node) : Prop :=
  ∀ n : Node, n.Hidden nodes → r.symbol? n.mark.id = none

theorem Resolution.symbol?_pruned (r : Resolution) (id : Nat) :
    r.pruned.symbol? id = (r.symbol? id).map Symbol.pruned :=
  Table.get?_mapValues _ _ _

/-- The resolution of a program whose nodes have different numbers binds nothing in invalid definitions: what it binds
is bound in the pruned program too. -/
theorem Program.skips_resolve (primitives : Primitives) (available : Libraries) {p : Program}
    (hids : (p.nodes.map (·.mark.id)).Nodup) : (p.resolve primitives available).1.Skips p.nodes := by
  intro n hn
  have hnot := (p.unhidden.hidden hids n hn).2
  have hnone : (p.pruned.resolve primitives available).1.symbol? n.mark.id = none := by
    refine Lexical.symbol?_of_not_mem primitives available p.pruned fun o ho heq => hnot ?_
    rw [← heq]
    exact (Lexical.sublist_programOccurrences primitives p.pruned).subset (mem_map_of_mem ho)
  rw [p.resolve_pruned, Resolution.symbol?_pruned] at hnone
  exact Option.map_eq_none_iff.mp hnone

theorem Resolution.Skips.mono {r : Resolution} {nodes nodes' : List Node} (h : r.Skips nodes) (hsub : nodes' ⊆ nodes) :
    r.Skips nodes' := by
  rintro n ⟨d, body, hd, hrest⟩
  exact h n ⟨d, body, hsub hd, hrest⟩

theorem Resolution.Skips.inert {r : Resolution} {d : Definition} (h : r.Skips d.nodes) (hinvalid : d.mark.invalid) :
    ∀ body, d.body = some body → r.Inert body :=
  fun body hbody n hn => h n ⟨d, body, d.mem_nodes, hinvalid, hbody, hn⟩

/-! ## Programs and pruned programs -/

variable {r r' : Resolution}

/-- A node in whose invalid definitions nothing is bound is alike the pruned one. -/
theorem Node.alike_pruned (n : Node) (hr : r.Skips n.nodes) :
    (∀ b, n = .box b → b.Alike (.whole id) r r' b.pruned)
      ∧ ∀ d, n = .definition d → d.Alike (.whole id) r r' d.pruned := by
  induction n using Node.induct with
  | h n ih =>
    have hparts (m : Node) (hm : m ∈ n.children) := ih m hm (hr.mono (n.partsIn_nodes.nodes_subset m
      (n.partsIn_nodes n n.mem_nodes m hm)))
    constructor
    · rintro b rfl
      cases b with
      | ref => exact .ref trivial ..
      | number => exact .number ..
      | string => exact .string ..
      | call mark name args =>
        rw [Box.pruned, Box.prunedAll_eq]
        refine .call ⟨trivial, rfl, fun _ => rfl⟩ (forall₂_map_right_iff.mpr (forall₂_same.mpr fun b hb => ?_))
        exact (hparts (.box b) (mem_map_of_mem hb)).1 b rfl
      | compose mark op left right =>
        exact .compose ((hparts _ mem_cons_self).1 left rfl)
          ((hparts _ (mem_cons_of_mem _ mem_cons_self)).1 right rfl)
      | block mark body locals =>
        rw [Box.pruned, Definition.prunedAll_eq]
        refine .block ((hparts _ mem_cons_self).1 body rfl)
          (forall₂_map_right_iff.mpr (forall₂_same.mpr fun d hd => ?_))
        exact (hparts (.definition d) (mem_cons_of_mem _ (mem_map_of_mem hd))).2 d rfl
    · rintro ⟨mark, name, params, body, stop⟩ rfl
      cases hinvalid : mark.invalid with
      | true =>
        have hpruned : Definition.pruned ⟨mark, name, params, body, stop⟩ = ⟨mark, name, [], none, mark.position⟩ := by
          cases body <;> exact if_pos hinvalid
        rw [hpruned]
        exact .invalid hinvalid rfl (hr.inert hinvalid) (by simp)
      | false =>
        rw [Definition.pruned_of_valid hinvalid]
        refine .valid rfl rfl ?_
        cases body with
        | none => exact .none
        | some body => exact .some ((hparts _ mem_cons_self).1 body rfl)

section

variable (primitives : Primitives) (available : Libraries) {p : Program} (hids : (p.nodes.map (·.mark.id)).Nodup)

include hids

/-- The resolution of a program is alike that of the pruned one. -/
theorem Program.alike_resolve_pruned :
    (p.resolve primitives available).1.Alike (.whole id) (p.pruned.resolve primitives available).1 := by
  intro id _
  rw [p.resolve_pruned, Resolution.symbol?_pruned]
  cases hs : (p.resolve primitives available).1.symbol? id with
  | none => exact .none
  | some s =>
    refine .some ⟨rfl, rfl, rfl, ?_⟩
    rw [Symbol.pruned]
    cases hd : s.definition with
    | none => exact .none
    | some d =>
      have hmem := (Sizing.mem_nodes_of_symbol? primitives available hids hs hd).2
      refine .some (((Node.definition d).alike_pruned ?_).2 d rfl)
      exact (Program.skips_resolve primitives available hids).mono (p.partsIn_nodes.nodes_definition d hmem)

/-- A program has the dimensions and the controls of the pruned one, and the same is found about them. -/
theorem Program.analyses_pruned :
    (p.pruned.dimensions (p.pruned.resolve primitives available).1 primitives).map (fun s => (s.dims, s.findings))
        = (p.dimensions (p.resolve primitives available).1 primitives).map (fun s => (s.dims, s.findings))
      ∧ p.pruned.controls (p.pruned.resolve primitives available).1
        = p.controls (p.resolve primitives available).1 := by
  have hpruned : (p.pruned.nodes.map (·.mark.id)).Nodup := p.unhidden.sublist.nodup hids
  have hresolution := Program.alike_resolve_pruned primitives available hids
  have hdefinitions : Forall₂ (Definition.Alike (.whole id) (p.resolve primitives available).1
      (p.pruned.resolve primitives available).1) p.definitions p.pruned.definitions := by
    rw [Program.pruned, Definition.prunedAll_eq, forall₂_map_right_iff]
    refine forall₂_same.mpr fun d hd => ((Node.definition d).alike_pruned ?_).2 d rfl
    exact (Program.skips_resolve primitives available hids).mono
      (p.partsIn_nodes.nodes_definition d (p.mem_nodes_of_definition hd))
  have halike : Sizing.Alike (.whole id) (Sizing.programSizing primitives available p)
      (Sizing.programSizing primitives available p.pruned) :=
    ⟨hresolution, rfl, Sizing.coherent_resolve primitives available hids,
      Sizing.coherent_resolve primitives available hpruned⟩
  have hdimensions := halike.dimensions hids hpruned hdefinitions
  have hcontrols := Program.controls_alike hresolution hdefinitions
  simp only [View.whole, Finding.mapNames_id, map_id] at hdimensions
  rw [View.whole, show Control.mapOwner id = id from rfl, map_id, map_id] at hcontrols
  exact ⟨hdimensions, hcontrols⟩

end

/-! ## Results by number -/

/-- A symbol without its definition, and the number of that. -/
def Symbol.numbered (s : Symbol) : Symbol × Option Nat := ({ s with definition := none }, s.definition.map (·.id))

theorem Symbol.numbered_pruned (s : Symbol) : s.pruned.numbered = s.numbered := by
  unfold Symbol.numbered Symbol.pruned
  rw [Option.map_map]
  congr 2
  funext d
  exact congrArg Mark.id d.mark_pruned

/-- The resolutions agree, with definitions told by their numbers: nodes are bound to the same symbols and so are the
names in all scopes, definitions are referred to as often, and the imports are the same. -/
structure Resolution.SameByNumber (r r' : Resolution) : Prop where
  bindings : r'.bindings.mapValues Symbol.numbered = r.bindings.mapValues Symbol.numbered
  scopes : r'.tree.scopes.map (fun s => (s.parent, s.bindings.mapValues Symbol.numbered))
    = r.tree.scopes.map fun s => (s.parent, s.bindings.mapValues Symbol.numbered)
  references : r'.references = r.references
  imports : r'.imports = r.imports
  libraries : r'.libraries = r.libraries

theorem Table.mapValues_mapValues {κ α β γ : Type} (f : β → γ) (g : α → β) (t : Table κ α) :
    (t.mapValues g).mapValues f = t.mapValues (f ∘ g) := by
  simp [Table.mapValues, Function.comp_def]

theorem Resolution.sameByNumber_of_pruned (h : r'.pruned = r.pruned) : r.SameByNumber r' := by
  have hnumbered : Symbol.numbered ∘ Symbol.pruned = Symbol.numbered := funext Symbol.numbered_pruned
  obtain ⟨htree, hbindings, hreferences, himports, hlibraries⟩ := Resolution.mk.inj h
  refine ⟨?_, ?_, hreferences, himports, hlibraries⟩
  · rw [← hnumbered, ← Table.mapValues_mapValues, hbindings, Table.mapValues_mapValues]
  · have hscopes := congrArg (List.map fun s => (s.parent, s.bindings.mapValues Symbol.numbered))
      (ScopeTree.mk.inj htree)
    simpa [Function.comp_def, Scope.pruned, Table.mapValues_mapValues, Symbol.numbered_pruned] using hscopes

/-- What stands in invalid definitions does not matter. Two programs whose nodes have different numbers, and which are
the same but for the parameters and bodies of their invalid definitions, have the same resolution, with definitions told
by their numbers, and the same is reported about their names. They have the same dimensions, with the same findings, or
none for the same reason; and their controls are the same, with the same findings. -/
theorem Program.invalid_bodies_irrelevant (primitives : Primitives) (available : Libraries) (p q : Program)
    (hp : (p.nodes.map (·.mark.id)).Nodup) (hq : (q.nodes.map (·.mark.id)).Nodup) (h : q.pruned = p.pruned) :
    (p.resolve primitives available).1.SameByNumber (q.resolve primitives available).1
    ∧ (q.resolve primitives available).2 = (p.resolve primitives available).2
    ∧ (q.dimensions (q.resolve primitives available).1 primitives).map (fun s => (s.dims, s.findings))
      = (p.dimensions (p.resolve primitives available).1 primitives).map (fun s => (s.dims, s.findings))
    ∧ q.controls (q.resolve primitives available).1 = p.controls (p.resolve primitives available).1
    ∧ rangeFindings (q.controls (q.resolve primitives available).1)
      = rangeFindings (p.controls (p.resolve primitives available).1)
    ∧ pathFindings (q.controls (q.resolve primitives available).1)
      = pathFindings (p.controls (p.resolve primitives available).1) := by
  have hresolve := congrArg (Program.resolve · primitives available) h
  rw [Program.resolve_pruned, Program.resolve_pruned] at hresolve
  obtain ⟨hresolution, hfindings⟩ := Prod.mk.inj hresolve
  obtain ⟨hdimensions, hcontrols⟩ := Program.analyses_pruned primitives available hp
  obtain ⟨hdimensions', hcontrols'⟩ := Program.analyses_pruned primitives available hq
  rw [h] at hdimensions' hcontrols'
  have hsame := hcontrols'.symm.trans hcontrols
  exact ⟨Resolution.sameByNumber_of_pruned hresolution, hfindings, hdimensions'.symm.trans hdimensions, hsame,
    congrArg _ hsame, congrArg _ hsame⟩

/-- The program `process = _ ~ (_ with { g; }); f;`, in which `f` and the local definition `g` are invalid and hold what
is given. -/
def damaged (params : List String) (f g : Option Box) : Program where
  imports := []
  declarations := []
  definitions :=
    [⟨markAt 1, "process", [],
        some (.compose (markAt 2) .recur (.ref (markAt 3) "_")
          (.block (markAt 4) (.ref (markAt 5) "_") [⟨{ markAt 6 with invalid := true }, "g", params, g, .start⟩])),
        .start⟩,
      ⟨{ markAt 7 with invalid := true }, "f", params, f, .start⟩]

/-- Both invalid definitions empty. -/
def emptied : Program := damaged [] none none

/-- Parameters in both invalid definitions, a control in `f` and a delay in `g`. -/
def garbled : Program :=
  damaged ["a"] (some (.call (markAt 8) "button" [.string (markAt 9) "on"])) (some (.ref (markAt 10) "mem"))

/-- The delay in the invalid definition does not help the feedback around it, and the control in the other one is
none. -/
theorem Program.invalid_bodies_irrelevant_garbled :
    (emptied.nodes.map (·.mark.id)).Nodup ∧ (garbled.nodes.map (·.mark.id)).Nodup ∧ garbled.pruned = emptied.pruned
    ∧ ((garbled.dimensions (garbled.resolve standardPrimitives .empty).1 standardPrimitives).map
      fun s => (s.dims, s.findings)).toOption
      = some (.ofList [(3, ⟨1, 1⟩), (5, ⟨1, 1⟩), (4, ⟨1, 1⟩), (2, ⟨0, 1⟩), (1, ⟨0, 1⟩)],
        [⟨⟨1, 2⟩, .feedbackWithoutDelay⟩])
    ∧ garbled.controls (garbled.resolve standardPrimitives .empty).1 = [] := by
  have hp : (emptied.nodes.map (·.mark.id)).Nodup := by decide
  have hq : (garbled.nodes.map (·.mark.id)).Nodup := by decide
  obtain ⟨-, -, hdimensions, hcontrols, -, -⟩ :=
    Program.invalid_bodies_irrelevant standardPrimitives .empty emptied garbled hp hq rfl
  refine ⟨hp, hq, rfl, ?_, ?_⟩
  · rw [hdimensions]
    decide +kernel
  · rw [hcontrols]
    simp [Program.controls, emptied, damaged, Definition.controls, Definition.controlsAll, Box.controls]

end Patchbay
