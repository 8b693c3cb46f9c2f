import Mathlib.Data.List.Nodup
import Patchbay.Proofs.Scope.LexicalScoping

/-!
# Names do not depend on the order of definitions

Two programs that differ in the order of their definitions have the same environments if the names of the
definitions are different. So the occurrences are the same in another order, and every node is bound to the same
symbol.
-/

open List

namespace Patchbay

/-! ## Reordered programs -/

/-- Two programs differ only in the order of their definitions. -/
structure Program.Reordered (p q : Program) : Prop where
  imports : q.imports = p.imports
  declarations : q.declarations = p.declarations
  definitions : q.definitions.Perm p.definitions

variable {p q : Program} {ds : List Definition}

theorem Program.Reordered.symm (h : p.Reordered q) : q.Reordered p :=
  ⟨h.imports.symm, h.declarations.symm, h.definitions.symm⟩

theorem Program.Reordered.trans {r : Program} (h : p.Reordered q) (h' : q.Reordered r) : p.Reordered r :=
  ⟨h'.imports.trans h.imports, h'.declarations.trans h.declarations, h'.definitions.trans h.definitions⟩

/-- Reordered programs have the same nodes, apart from the programs themselves. -/
theorem Program.Reordered.perm_nodes (h : p.Reordered q) :
    ∃ nodes nodes', p.nodes = .program p :: nodes ∧ q.nodes = .program q :: nodes' ∧ nodes'.Perm nodes := by
  refine ⟨_, _, rfl, rfl, ?_⟩
  rw [h.imports, h.declarations, Definition.nodesAll_eq, Definition.nodesAll_eq]
  exact (h.definitions.flatMap_right _).append_left _

theorem Program.Reordered.nodup_ids (h : p.Reordered q) (hids : (p.nodes.map (·.mark.id)).Nodup) :
    (q.nodes.map (·.mark.id)).Nodup := by
  obtain ⟨nodes, nodes', hp, hq, hperm⟩ := h.perm_nodes
  rw [hp] at hids
  rw [hq]
  exact ((hperm.map _).cons 0).nodup_iff.mpr hids

/-- Invalid boxes make all around them invalid in every order of a program, if they do in one. -/
theorem Program.Reordered.whole (h : p.Reordered q) (hwhole : ∀ n ∈ p.nodes, n.Whole) : ∀ n ∈ q.nodes, n.Whole := by
  obtain ⟨nodes, nodes', hp, hq, hperm⟩ := h.perm_nodes
  intro n hn
  rw [hq] at hn
  rcases mem_cons.mp hn with rfl | hn
  · intro _ b hb
    simp [Node.children] at hb
  · exact hwhole n (hp ▸ mem_cons_of_mem _ (hperm.mem_iff.mp hn))

namespace Lexical

open Resolver

/-! ## Environments -/

/-- In a scope of definitions with different names each name stands for the definition of this name. -/
theorem definitionFrame_eq_some_iff (hnames : (ds.map (·.name)).Nodup) {name : String} {symbol : Symbol} :
    definitionFrame ds name = some symbol ↔ ∃ d ∈ ds, d.name = name ∧ definitionSymbol d = symbol := by
  constructor
  · intro h
    obtain ⟨d, hd, rfl⟩ := mem_map.mp (mem_of_find?_eq_some h)
    have hname := find?_some h
    exact ⟨d, hd, beq_iff_eq.mp hname, rfl⟩
  · rintro ⟨d, hd, rfl, rfl⟩
    cases hfound : definitionFrame ds d.name with
    | none =>
      have hnone := find?_eq_none.mp hfound (definitionSymbol d) (mem_map_of_mem hd)
      exact absurd (beq_self_eq_true d.name) hnone
    | some symbol =>
      -- The definition that is found has the same name.
      obtain ⟨e, he, rfl⟩ := mem_map.mp (mem_of_find?_eq_some hfound)
      have hname := find?_some hfound
      rw [inj_on_of_nodup_map hnames he hd (beq_iff_eq.mp hname)]

theorem definitionFrame_perm {es : List Definition} (h : es.Perm ds) (hnames : (ds.map (·.name)).Nodup) :
    definitionFrame es = definitionFrame ds := by
  funext name
  refine Option.ext fun symbol => ?_
  rw [definitionFrame_eq_some_iff hnames, definitionFrame_eq_some_iff ((h.map _).nodup_iff.mpr hnames)]
  simp only [h.mem_iff]

theorem definitionsRepeats_eq (ds : List Definition) :
    definitionsRepeats ds = ds.flatMap definitionRepeats := by
  induction ds with
  | nil => rfl
  | cons d rest ih => rw [definitionsRepeats, ih, flatMap_cons]

/-- Symbols with different names are not repeated. -/
theorem repeats_eq_nil {earlier : List Symbol} {entries : List (Symbol × Position)}
    (h : (earlier.map (·.name) ++ entries.map (·.1.name)).Nodup) : repeats earlier entries = [] := by
  induction entries generalizing earlier with
  | nil => rfl
  | cons entry rest ih =>
    obtain ⟨symbol, position⟩ := entry
    have hnew : Frame.ofSymbols earlier symbol.name = none := by
      refine find?_eq_none.mpr ?_
      intro s hs heq
      have hdisjoint := (List.nodup_append.mp h).2.2
      exact hdisjoint s.name (mem_map_of_mem hs) symbol.name mem_cons_self (beq_iff_eq.mp heq)
    rw [repeats, hnew]
    refine ih ?_
    rw [map_append, List.append_assoc]
    exact h

/-! ## Resolutions -/

section

variable {p q : Program} (h : p.Reordered q) (hnames : (p.definitions.map (·.name)).Nodup)

include h

theorem programContext_reordered (available : Libraries) :
    programContext available q = programContext available p := by
  rw [programContext, programContext, h.imports]

theorem serve_reordered (available : Libraries) :
    (Imports.kept available p).Serve (programContext available q) := by
  rw [programContext_reordered h]
  exact serve_kept available p

include hnames

theorem perm_programOccurrences (primitives : Primitives) :
    (programOccurrences primitives q).Perm (programOccurrences primitives p) := by
  rw [programOccurrences, programOccurrences, programEnv, programEnv, definitionFrame_perm h.definitions hnames,
    definitionsOccurrences_eq, definitionsOccurrences_eq]
  exact h.definitions.flatMap_right _

theorem perm_programRepeats : (programRepeats q).Perm (programRepeats p) := by
  have hnone (r : Program) (hr : (r.definitions.map (·.name)).Nodup) :
      programRepeats r = r.definitions.flatMap definitionRepeats := by
    have hentries : (([] : List Symbol).map (·.name)
        ++ (definitionEntries r.definitions).map (·.1.name)).Nodup := by
      rw [definitionEntries, map_map]
      exact hr
    rw [programRepeats, repeats_eq_nil hentries, definitionsRepeats_eq, nil_append]
  rw [hnone p hnames, hnone q ((h.definitions.map _).nodup_iff.mpr hnames)]
  exact h.definitions.flatMap_right _

variable (primitives : Primitives) (available : Libraries)

/-- Every node of reordered programs is bound to the same symbol. -/
theorem symbol?_reordered (hids : (p.nodes.map (·.mark.id)).Nodup) (id : Nat) :
    (q.resolve primitives available).1.symbol? id = (p.resolve primitives available).1.symbol? id := by
  have hserve := serve_kept available p
  have hserve' := serve_reordered h available
  have hperm := perm_programOccurrences h hnames primitives
  by_cases hid : ∃ o ∈ programOccurrences primitives p, o.mark.id = id
  · obtain ⟨o, ho, rfl⟩ := hid
    rw [symbol?_of_mem primitives hids hserve ho,
      symbol?_of_mem primitives (h.nodup_ids hids) hserve' (hperm.mem_iff.mpr ho)]
  · have hnot : ∀ o ∈ programOccurrences primitives p, o.mark.id ≠ id := fun o ho heq => hid ⟨o, ho, heq⟩
    rw [symbol?_of_not_mem primitives available p hnot,
      symbol?_of_not_mem primitives available q fun o ho => hnot o (hperm.mem_iff.mp ho)]

/-- Definitions of reordered programs are referred to as often. -/
theorem referenceCount_reordered (d : Definition) :
    (q.resolve primitives available).1.referenceCount d = (p.resolve primitives available).1.referenceCount d := by
  have hserve := serve_kept available p
  have hserve' := serve_reordered h available
  have hcount (r : Program) (hr : (Imports.kept available p).Serve (programContext available r)) :
      (r.resolve primitives available).1.referenceCount d = (programOccurrences primitives r).countP
        fun o => refersTo d.id (o.meaning? (Imports.kept available p)) := by
    obtain ⟨-, hcount, -⟩ := resolve_eq primitives available r
    have hzero : ((programStart primitives available r).references.get? d.id).getD 0 = 0 := rfl
    rw [hcount, (records_program primitives hr).references, (lists_programEvents primitives r).uses, getD_foldl_count,
      hzero, Nat.zero_add]
  rw [hcount q hserve', hcount p hserve]
  exact (perm_programOccurrences h hnames primitives).countP_eq _

/-- The same is reported about reordered programs, in some order. -/
theorem perm_resolve_reordered :
    (q.resolve primitives available).2.Perm (p.resolve primitives available).2 := by
  have hserve := serve_kept available p
  have hserve' := serve_reordered h available
  have hoccurrences := (perm_programOccurrences h hnames primitives).filterMap
    (Occurrence.finding? (Imports.kept available p) (programContext available p))
  refine (perm_findings primitives hserve').trans (Perm.trans ?_ (perm_findings primitives hserve).symm)
  rw [programContext_reordered h, h.imports]
  exact (hoccurrences.append (perm_programRepeats h hnames)).append_left _

end

end Lexical

end Patchbay
