import Patchbay.Proofs.Analysis.Order
import Patchbay.Proofs.Analysis.Sites
import Patchbay.Proofs.Sizing.Extension

/-!
# A definition that nobody names is local

A program is extended by a definition at its end, which stands behind all of it and whose name the program does not
spell out. The new definition may refer to the program, and it may be invalid or cyclic or use paths that are in use.
All the same the nodes of the program are bound to the same symbols and have the same dimensions, and the controls of
its definitions are the same. What is reported about the extended program is what is reported about the program, apart
from hints, and what is reported at the new definition or inside it.

There is one exception: a new definition that cannot be sized takes all dimensions with it.
-/

open List

namespace Patchbay

open Sizing

/-- Whether a finding is at a definition or inside it. -/
def Definition.locates (d : Definition) (f : Finding) : Bool := d.nodes.any fun n => n.mark.position == f.position

/-! ## Sorting -/

/-- A control is sorted in before those that may stand behind it. -/
theorem Control.exists_mergeSort_cons (c : Control) (l : List Control) :
    ∃ front back, (c :: l).mergeSort Control.notAfter = front ++ c :: back
      ∧ l.mergeSort Control.notAfter = front ++ back
      ∧ (∀ e ∈ front, c.notAfter e = false) ∧ ∀ e ∈ back, c.notAfter e := by
  rcases mergeSort_cons Control.notAfter_trans Control.notAfter_total c l
    with ⟨front, back, hwith, hwithout, hfront⟩
  have hsorted := pairwise_mergeSort Control.notAfter_trans Control.notAfter_total (c :: l)
  rw [hwith] at hsorted
  refine ⟨front, back, hwith, hwithout, ?_, ?_⟩
  · intro e he
    simpa using hfront e he
  · exact (pairwise_cons.mp (pairwise_append.mp hsorted).2.1).1

/-- Of two lists the first is left if a condition holds in it and nowhere in the second. -/
theorem filter_append_left {α : Type} {P : α → Bool} {l l' : List α} (hl : ∀ x ∈ l, P x)
    (hl' : ∀ x ∈ l', P x = false) : (l ++ l').filter P = l := by
  rw [filter_append, filter_eq_self.mpr hl, filter_eq_nil_iff.mpr fun x hx => by simp [hl' x hx],
    append_nil]

variable {c : Control} {f : Finding} {r : Resolution} {cs : List Control}

/-- Controls that come behind all others may be sorted by themselves. -/
theorem mergeSort_append {later : List Control} (h : ∀ c ∈ cs, ∀ e ∈ later, e.notAfter c = false) :
    (cs ++ later).mergeSort Control.notAfter
      = cs.mergeSort Control.notAfter ++ later.mergeSort Control.notAfter := by
  induction cs with
  | nil => rw [nil_append, mergeSort_nil, nil_append]
  | cons c rest ih =>
    rcases forall_mem_cons.mp h with ⟨hc, hrest⟩
    rcases c.exists_mergeSort_cons (rest ++ later) with ⟨front, back, hwith, hwithout, hfront, hback⟩
    rcases c.exists_mergeSort_cons rest with ⟨front', back', hwith', hwithout', hfront', hback'⟩
    have hbehind : ∀ e ∈ back' ++ later.mergeSort Control.notAfter, c.notAfter e := by
      intro e he
      rcases mem_append.mp he with he | he
      · exact hback' e he
      · have htotal := Control.notAfter_total c e
        rwa [hc e (mem_mergeSort.mp he), Bool.or_false] at htotal
    have hsame : front ++ back = front' ++ (back' ++ later.mergeSort Control.notAfter) := by
      rw [← hwithout, ih hrest, hwithout', List.append_assoc]
    -- The place of the first control is behind all that must stand before it, with the later ones or without.
    have hbefore {l l' : List Control} (hl : ∀ e ∈ l, c.notAfter e = false) (hl' : ∀ e ∈ l', c.notAfter e) :
        (l ++ l').filter (!c.notAfter ·) = l :=
      filter_append_left (fun e he => by simp [hl e he]) (fun e he => by simp [hl' e he])
    obtain rfl : front = front' := by rw [← hbefore hfront hback, hsame, hbefore hfront' hbehind]
    rw [cons_append, hwith, hwith', append_cancel_left hsame, List.append_assoc, cons_append]

/-! ## Paths -/

/-- Paths are checked in order: what comes first is checked as if nothing came behind it. -/
theorem exists_clashesFrom_append (seen : Table String Position) (cs later : List Control) :
    ∃ seen', clashesFrom seen (cs ++ later) = clashesFrom seen cs ++ clashesFrom seen' later := by
  induction cs generalizing seen with
  | nil => exact ⟨seen, rfl⟩
  | cons c rest ih =>
    rw [cons_append, clashesFrom, clashesFrom]
    split
    · rcases ih seen with ⟨seen', hseen'⟩
      exact ⟨seen', by rw [hseen', cons_append]⟩
    · exact ih _

theorem exists_control_of_mem_clashesFrom {seen : Table String Position} (h : f ∈ clashesFrom seen cs) :
    ∃ c ∈ cs, f.position = c.position := by
  induction cs generalizing seen with
  | nil => cases h
  | cons c rest ih =>
    have hlater {seen' : Table String Position} (h : f ∈ clashesFrom seen' rest) :
        ∃ e ∈ c :: rest, f.position = e.position := by
      rcases ih h with ⟨e, he, hposition⟩
      exact ⟨e, mem_cons_of_mem _ he, hposition⟩
    rw [clashesFrom] at h
    split at h
    · rcases mem_cons.mp h with rfl | h
      · exact ⟨c, mem_cons_self, rfl⟩
      · exact hlater h
    · exact hlater h

/-! ## Places -/

section Places

variable {p : Program} {d : Definition}

/-- The parts of a program, without the program itself, are closed. -/
theorem Program.partsIn_tail (p : Program) : PartsIn p.nodes.tail := by
  intro n hn m hm
  have hmem := p.partsIn_nodes n (mem_of_mem_tail hn) m hm
  rcases mem_cons.mp hmem with rfl | hmem
  · -- The program is part of no node.
    cases n with
    | box b => cases b <;> simp [Node.children] at hm
    | program | importing | declaration | definition => simp [Node.children] at hm
  · exact hmem

theorem Program.mem_tail_of_definition (p : Program) {e : Definition} (he : e ∈ p.definitions) :
    Node.definition e ∈ p.nodes.tail :=
  mem_append_right _ (Definition.mem_nodesAll he)

/-- A finding at the place of a node of a definition is at the definition or inside it. -/
theorem Definition.locates_of_mem {n : Node} (hn : n ∈ d.nodes) (hf : n.mark.position = f.position) :
    d.locates f :=
  any_eq_true.mpr ⟨n, hn, beq_iff_eq.mpr hf⟩

/-- Findings at nodes of the program are not at a definition that stands behind it. -/
theorem Definition.locates_eq_false
    (hplaces : ∀ n ∈ p.nodes.tail, ∀ m ∈ d.nodes, m.mark.position.before n.mark.position = false)
    (hf : ∃ n ∈ p.nodes.tail, n.mark.position = f.position) : d.locates f = false := by
  rcases hf with ⟨n, hn, hposition⟩
  refine any_eq_false.mpr ?_
  intro m hm heq
  have hbefore := hplaces n hn m hm
  rw [beq_iff_eq.mp heq, hposition] at hbefore
  have htotal := Position.before_total f.position f.position
  rw [hbefore] at htotal
  simp at htotal

/-- What is not at the new definition comes from before. -/
theorem filter_locates {old new : List Finding} (hold : ∀ f ∈ old, d.locates f = false)
    (hnew : ∀ f ∈ new, d.locates f) : (old ++ new).filter (!d.locates ·) = old :=
  filter_append_left (fun f hf => by simp [hold f hf]) (fun f hf => by simp [hnew f hf])

end Places

/-! ## Extended programs -/

section Extended

variable {p : Program} {d : Definition}

theorem Program.exists_node_of_mem_controls (hc : c ∈ p.controls r) :
    ∃ n ∈ p.nodes.tail, n.mark.position = c.position := by
  rcases Program.among_of_entered p.partsIn_tail.entered (fun _ he => p.mem_tail_of_definition he) hc
    with ⟨mark, name, args, label, groups, owner, hcall, -, rfl⟩
  exact ⟨_, hcall, rfl⟩

theorem Definition.exists_node_of_mem_controls (hc : c ∈ d.controls r []) :
    ∃ n ∈ d.nodes, n.mark.position = c.position := by
  rcases Definition.among_of_mem_controls d.partsIn_nodes.entered d [] d.mem_nodes hc
    with ⟨mark, name, args, label, groups, owner, hcall, -, rfl⟩
  exact ⟨_, hcall, rfl⟩

variable (primitives : Primitives) (available : Libraries)

/-- The controls of an extended program are those of the program and then those of the new definition. -/
theorem Program.controls_extended (hids : ((p.extended d).nodes.map (·.mark.id)).Nodup)
    (hname : ∀ n ∈ p.nodes, d.name ∉ n.spelled) :
    (p.extended d).controls ((p.extended d).resolve primitives available).1
      = p.controls (p.resolve primitives available).1
        ++ (d.controls ((p.extended d).resolve primitives available).1 []).mergeSort Control.notAfter := by
  have halike := (alike_extended primitives available hids hname).resolution
  rw [Program.controls, Program.controls, show (p.extended d).definitions = p.definitions ++ [d] from rfl,
    flatMap_append, flatMap_singleton]
  congr 1
  refine flatMap_congr ?_
  intro e he
  have hsame := Definition.Alike.controls halike e e (alike_of_mem (p.mem_nodes_of_definition he)) []
  rw [viewOf, show Control.mapOwner id = id from rfl, map_id, map_id] at hsame
  exact congrArg (List.mergeSort · Control.notAfter) hsame

/-- What is reported about the names of the program is not at the new definition. -/
theorem Lexical.filter_findings_extended (hname : ∀ n ∈ p.nodes, d.name ∉ n.spelled)
    (hplaces : ∀ n ∈ p.nodes.tail, ∀ m ∈ d.nodes, m.mark.position.before n.mark.position = false) :
    (((p.extended d).resolve primitives available).2.filter (!d.locates ·)).map Finding.unadvised
      = (p.resolve primitives available).2.map Finding.unadvised := by
  rcases findings_extended primitives available hname with ⟨old, new, hboth, hold, hnew⟩
  rw [hboth, filter_locates ?_ ?_, hold]
  · intro f hf
    -- Up to hints the finding is one about the program.
    have hmem : f.unadvised ∈ (p.resolve primitives available).2.map Finding.unadvised := by
      rw [← hold]
      exact mem_map_of_mem hf
    rcases mem_map.mp hmem with ⟨g, hg, hsame⟩
    have hstands := Lexical.standsAmong_of_entered p.partsIn_tail.entered
      (fun _ hi => mem_append_left _ (mem_append_left _ (mem_map_of_mem hi)))
      (fun _ he => p.mem_tail_of_definition he) hg
    rcases hstands.places g.position mem_cons_self with ⟨n, hn, hposition⟩
    exact Definition.locates_eq_false hplaces ⟨n, hn, hposition.trans (congrArg Diagnostic.position hsame)⟩
  · intro f hf
    rcases hnew f hf with ⟨n, hn, hposition⟩
    exact Definition.locates_of_mem hn hposition

/-- What is reported about the sizes of the program is not at the new definition. -/
theorem Sizing.filter_findings_extended (hids : ((p.extended d).nodes.map (·.mark.id)).Nodup)
    (hname : ∀ n ∈ p.nodes, d.name ∉ n.spelled)
    (hplaces : ∀ n ∈ p.nodes.tail, ∀ m ∈ d.nodes, m.mark.position.before n.mark.position = false) :
    (sizeProgram (programSizing primitives available (p.extended d)) (p.extended d)).findings.filter (!d.locates ·)
      = (sizeProgram (programSizing primitives available p) p).findings := by
  rcases (confined_sizeProgram primitives available hids hname).findings with ⟨new, hboth, hnew⟩
  rw [hboth, filter_locates ?_ ?_]
  · intro f hf
    have hstands := standsAmong_of_mem_sized primitives available (Program.nodup_ids_of_extended hids) hf
    rcases hstands.places f.position mem_cons_self with ⟨n, hn, hposition⟩
    rcases mem_filter.mp hn with ⟨hmem, hsite⟩
    rcases mem_cons.mp hmem with rfl | hmem
    · exact absurd hsite Bool.false_ne_true
    · exact Definition.locates_eq_false hplaces ⟨n, hmem, hposition⟩
  · intro f hf
    rcases hnew f hf with ⟨n, hn, hposition⟩
    exact Definition.locates_of_mem hn hposition

/-- If the extended program has dimensions then so has the program. -/
theorem Program.dimensions_of_extended (hids : ((p.extended d).nodes.map (·.mark.id)).Nodup)
    (hname : ∀ n ∈ p.nodes, d.name ∉ n.spelled) {s' : Sizing.State}
    (hs' : (p.extended d).dimensions ((p.extended d).resolve primitives available).1 primitives = .ok s') :
    p.dimensions (p.resolve primitives available).1 primitives
      = .ok (sizeProgram (programSizing primitives available p) p) := by
  rcases dimensions_eq_ok_iff.mp hs' with ⟨rfl, hfault, hwritable⟩
  refine dimensions_eq_ok_iff.mpr ⟨rfl, fault_of_extended primitives available hids hname hfault, ?_⟩
  rcases (confined_sizeProgram primitives available hids hname).findings with ⟨new, hboth, -⟩
  have hall : ((sizeProgram (programSizing primitives available p) p).findings ++ new).all
      (·.issue.isWritable) := hboth ▸ hwritable
  rw [all_append, Bool.and_eq_true] at hall
  exact hall.1

end Extended

/-! ## Structure -/

section Structure

variable {p : Program} {d : Definition} {cs own : List Control}

variable (hplaces : ∀ n ∈ p.nodes.tail, ∀ m ∈ d.nodes, m.mark.position.before n.mark.position = false)

include hplaces

/-- Ranges are checked one by one. -/
theorem rangeFindings_of_append (hcs : ∀ c ∈ cs, ∃ n ∈ p.nodes.tail, n.mark.position = c.position)
    (hown : ∀ c ∈ own, ∃ n ∈ d.nodes, n.mark.position = c.position) {findings : List Finding}
    (h : rangeFindings (cs ++ own) = .ok findings) :
    rangeFindings cs = .ok (findings.filter (!d.locates ·)) := by
  rcases rangeFindings_eq_ok_iff.mp h with ⟨hfinite, rfl⟩
  have hposition {c : Control} {f : Finding} (hf : c.rangeFinding? = some f) : c.position = f.position := by
    rcases Option.map_eq_some_iff.mp hf with ⟨issue, -, rfl⟩
    rfl
  rw [filterMap_append, filter_locates ?_ ?_]
  · exact rangeFindings_eq_ok_iff.mpr ⟨fun c hc => hfinite c (mem_append_left _ hc), rfl⟩
  · intro f hf
    rcases mem_filterMap.mp hf with ⟨c, hc, hfinding⟩
    rcases hcs c hc with ⟨n, hn, hplace⟩
    exact Definition.locates_eq_false hplaces ⟨n, hn, hplace.trans (hposition hfinding)⟩
  · intro f hf
    rcases mem_filterMap.mp hf with ⟨c, hc, hfinding⟩
    rcases hown c hc with ⟨n, hn, hplace⟩
    exact Definition.locates_of_mem hn (hplace.trans (hposition hfinding))

/-- Paths of controls that come behind all others change nothing for these. -/
theorem pathFindings_of_append (hcs : ∀ c ∈ cs, ∃ n ∈ p.nodes.tail, n.mark.position = c.position)
    (hown : ∀ c ∈ own, ∃ n ∈ d.nodes, n.mark.position = c.position) :
    (pathFindings (cs ++ own)).filter (!d.locates ·) = pathFindings cs := by
  have hbehind : ∀ c ∈ cs, ∀ e ∈ own, e.notAfter c = false := by
    intro c hc e he
    rcases hcs c hc with ⟨n, hn, hplace⟩
    rcases hown e he with ⟨m, hm, hplace'⟩
    rw [Control.notAfter, ← hplace, ← hplace']
    exact hplaces n hn m hm
  rcases exists_clashesFrom_append .empty (cs.mergeSort Control.notAfter) (own.mergeSort Control.notAfter)
    with ⟨seen, hclashes⟩
  rw [pathFindings, mergeSort_append hbehind, hclashes, filter_locates ?_ ?_]
  · rfl
  · intro f hf
    rcases exists_control_of_mem_clashesFrom hf with ⟨c, hc, hposition⟩
    rcases hcs c (mem_mergeSort.mp hc) with ⟨n, hn, hplace⟩
    exact Definition.locates_eq_false hplaces ⟨n, hn, hplace.trans hposition.symm⟩
  · intro f hf
    rcases exists_control_of_mem_clashesFrom hf with ⟨c, hc, hposition⟩
    rcases hown c (mem_mergeSort.mp hc) with ⟨n, hn, hplace⟩
    exact Definition.locates_of_mem hn (hplace.trans hposition.symm)

end Structure

/-! ## Locality -/

open Sizing in
/-- A definition that nobody names is local. Let a program be extended by a definition that stands behind it and has a
name that the program does not spell out, and let all nodes have different numbers. Then the nodes of the program are
bound to the same symbols, and the controls of its definitions are the same and come first. Among what is reported about
names, ranges and paths, all that is not at the new definition or inside it is what is reported about the program, in
the same order and apart from hints. The same holds for dimensions: if the extended program has them then so has the
program, and they are the same at its nodes. The extended program has them if its numbers are finite and the findings
can be written. -/
theorem Program.extension_local (primitives : Primitives) (available : Libraries) (p : Program) (d : Definition)
    (hids : ((p.extended d).nodes.map (·.mark.id)).Nodup)
    (hplaces : ∀ n ∈ p.nodes.tail, ∀ m ∈ d.nodes, m.mark.position.before n.mark.position = false)
    (hname : ∀ n ∈ p.nodes, d.name ∉ n.spelled) {r r' : Resolution} {bound bound' : List Finding}
    (hr : p.resolve primitives available = (r, bound))
    (hr' : (p.extended d).resolve primitives available = (r', bound')) :
    (∀ n ∈ p.nodes, r'.symbol? n.mark.id = r.symbol? n.mark.id)
    ∧ (bound'.filter (!d.locates ·)).map Finding.unadvised = bound.map Finding.unadvised
    ∧ (∀ s', (p.extended d).dimensions r' primitives = .ok s' →
      ∃ s, p.dimensions r primitives = .ok s
        ∧ (∀ n ∈ p.nodes, s'.dims.get? n.mark.id = s.dims.get? n.mark.id)
        ∧ s'.findings.filter (!d.locates ·) = s.findings)
    ∧ (p.extended d).controls r' = p.controls r ++ (d.controls r' []).mergeSort Control.notAfter
    ∧ (∀ ranges', rangeFindings ((p.extended d).controls r') = .ok ranges' →
      rangeFindings (p.controls r) = .ok (ranges'.filter (!d.locates ·)))
    ∧ (pathFindings ((p.extended d).controls r')).filter (!d.locates ·) = pathFindings (p.controls r)
    ∧ ((∀ name ∈ groups, (primitives.get? name).bind (·.uiArgs) = some 2) →
      (∀ mark value text, Node.box (.number mark value text) ∈ (p.extended d).nodes → value.isFinite = true) →
      (∃ ranges', rangeFindings ((p.extended d).controls r') = .ok ranges')
      ∧ ((∀ f ∈ (sizeProgram ⟨r', primitives⟩ (p.extended d)).findings, f.issue.isWritable = true) →
        ∃ s', (p.extended d).dimensions r' primitives = .ok s')) := by
  obtain ⟨rfl, rfl⟩ : (p.resolve primitives available).1 = r ∧ (p.resolve primitives available).2 = bound := by
    rw [hr]
    exact ⟨rfl, rfl⟩
  obtain ⟨rfl, rfl⟩ : ((p.extended d).resolve primitives available).1 = r'
      ∧ ((p.extended d).resolve primitives available).2 = bound' := by
    rw [hr']
    exact ⟨rfl, rfl⟩
  have hcontrols := Program.controls_extended primitives available hids hname
  have hold : ∀ c ∈ p.controls (p.resolve primitives available).1, ∃ n ∈ p.nodes.tail, n.mark.position = c.position :=
    fun _ hc => Program.exists_node_of_mem_controls hc
  have hown : ∀ c ∈ (d.controls ((p.extended d).resolve primitives available).1 []).mergeSort Control.notAfter,
      ∃ n ∈ d.nodes, n.mark.position = c.position :=
    fun _ hc => Definition.exists_node_of_mem_controls (mem_mergeSort.mp hc)
  refine ⟨?_, ?_, ?_, hcontrols, ?_, ?_, ?_⟩
  · intro n hn
    exact Lexical.symbol?_extended primitives available hname fun m hm => Program.id_ne_of_extended hids hm hn
  · exact Lexical.filter_findings_extended primitives available hname hplaces
  · intro s' hs'
    refine ⟨_, Program.dimensions_of_extended primitives available hids hname hs', ?_, ?_⟩
    · intro n hn
      rw [← (dimensions_eq_ok_iff.mp hs').1]
      refine (confined_sizeProgram primitives available hids hname).dims _ ?_
      exact fun m hm => Program.id_ne_of_extended hids hm hn
    · rw [← (dimensions_eq_ok_iff.mp hs').1]
      exact filter_findings_extended primitives available hids hname hplaces
  · intro ranges' hranges'
    rw [hcontrols] at hranges'
    exact rangeFindings_of_append hplaces hold hown hranges'
  · rw [hcontrols]
    exact pathFindings_of_append hplaces hold hown
  · intro hgroups hfinite
    constructor
    · have hnumbers : ∀ c ∈ (p.extended d).controls ((p.extended d).resolve primitives available).1,
          ∀ value ∈ c.numbers, value.isFinite = true :=
        fun _ hc _ hvalue => Program.isFinite_of_mem_controls primitives available hids hfinite hc hvalue
      exact rangeFindings_isOk hnumbers
    · intro hwritable
      have hfault := (sizeProgram_faultless primitives available hids hfinite hgroups).1
      exact ⟨_, dimensions_eq_ok_iff.mpr ⟨rfl, hfault, all_eq_true.mpr hwritable⟩⟩

/-- The program `process = button("t"), gain;`. -/
def gainless : Program where
  imports := []
  declarations := []
  definitions :=
    [⟨markAt 1, "process", [],
      some (.compose (markAt 2) .par (.call (markAt 3) "button" [.string (markAt 4) "t"]) (.ref (markAt 5) "gain")),
      .start⟩]

/-- The definition `gains = button("t"), (process : gains);`. -/
def gains : Definition :=
  ⟨markAt 6, "gains", [],
    some (.compose (markAt 7) .par (.call (markAt 8) "button" [.string (markAt 9) "t"])
      (.compose (markAt 10) .seq (.ref (markAt 11) "process") (.ref (markAt 12) "gains"))),
    .start⟩

open Sizing in
/-- The new definition `gains` refers to the program `gainless` and to itself and uses a path that is in use. This is
reported, and the hint for the misspelled name in the program now proposes the new one. Apart from that the program is
reported on as before. -/
theorem Program.extension_local_gains : ((gainless.extended gains).nodes.map (·.mark.id)).Nodup
    ∧ (∀ n ∈ gainless.nodes.tail, ∀ m ∈ gains.nodes, m.mark.position.before n.mark.position = false)
    ∧ (∀ n ∈ gainless.nodes, gains.name ∉ n.spelled)
    ∧ ((gainless.extended gains).resolve standardPrimitives .empty).2.map (·.toDiagnostic.suggestion)
      = [some "Did you mean 'gains'?"]
    ∧ (((gainless.extended gains).resolve standardPrimitives .empty).2.filter (!gains.locates ·)).map Finding.unadvised
      = (gainless.resolve standardPrimitives .empty).2.map Finding.unadvised
    ∧ (∃ s s', (gainless.extended gains).dimensions ((gainless.extended gains).resolve standardPrimitives .empty).1
        standardPrimitives = .ok s'
      ∧ gainless.dimensions (gainless.resolve standardPrimitives .empty).1 standardPrimitives = .ok s
      ∧ s'.findings = [⟨⟨1, 12⟩, .circularDefinition ["gains"] ⟨1, 6⟩⟩] ∧ s.findings = []
      ∧ ∀ n ∈ gainless.nodes, s'.dims.get? n.mark.id = s.dims.get? n.mark.id)
    ∧ pathFindings ((gainless.extended gains).controls ((gainless.extended gains).resolve standardPrimitives .empty).1)
      = [⟨⟨1, 8⟩, .pathInUse "t" ⟨1, 3⟩⟩]
    ∧ pathFindings (gainless.controls (gainless.resolve standardPrimitives .empty).1) = [] := by
  have hids : ((gainless.extended gains).nodes.map (·.mark.id)).Nodup := by decide
  have hplaces : ∀ n ∈ gainless.nodes.tail, ∀ m ∈ gains.nodes, m.mark.position.before n.mark.position = false := by
    decide
  have hname : ∀ n ∈ gainless.nodes, gains.name ∉ n.spelled := by decide
  have hsized : (sizeProgram ⟨((gainless.extended gains).resolve standardPrimitives .empty).1, standardPrimitives⟩
      (gainless.extended gains)).fault = none := by decide +kernel
  have hfindings : (sizeProgram ⟨((gainless.extended gains).resolve standardPrimitives .empty).1, standardPrimitives⟩
      (gainless.extended gains)).findings = [⟨⟨1, 12⟩, .circularDefinition ["gains"] ⟨1, 6⟩⟩] := by decide +kernel
  have hs' := dimensions_eq_ok_iff.mpr ⟨rfl, hsized, by rw [hfindings]; decide +kernel⟩
  have hpaths : pathFindings ((gainless.extended gains).controls
      ((gainless.extended gains).resolve standardPrimitives .empty).1) = [⟨⟨1, 8⟩, .pathInUse "t" ⟨1, 3⟩⟩] := by
    have heach : (gainless.extended gains).definitions.map
          (·.controls ((gainless.extended gains).resolve standardPrimitives .empty).1 [])
        = [[buttonAt "process" ⟨1, 3⟩], [buttonAt "gains" ⟨1, 8⟩]] := by decide +kernel
    have hcontrols := congrArg (List.flatMap fun cs => cs.mergeSort Control.notAfter) heach
    rw [flatMap_map] at hcontrols
    rw [Program.controls, hcontrols, pathFindings]
    simp only [flatMap_cons, flatMap_nil, mergeSort_singleton, append_nil, singleton_append]
    rw [mergeSort_of_pairwise (by decide)]
    decide
  obtain ⟨-, hnames, hdimensions, -, -, hclashes, -⟩ := Program.extension_local standardPrimitives .empty gainless gains
    hids hplaces hname Prod.mk.eta.symm Prod.mk.eta.symm
  obtain ⟨s, hs, hdims, hsame⟩ := hdimensions _ hs'
  rw [hfindings] at hsame
  rw [hpaths] at hclashes
  refine ⟨hids, hplaces, hname, by decide +kernel, hnames, ⟨s, _, hs', hs, hfindings, ?_, hdims⟩,
    hpaths, ?_⟩
  · rw [← hsame]
    decide
  · rw [← hclashes]
    decide

/-- The program `process = _;`. -/
def wire : Program where
  imports := []
  declarations := []
  definitions := [⟨markAt 1, "process", [], some (.ref (markAt 2) "_"), .start⟩]

/-- The definition `x = par(i, 1e999, _);`. -/
def endless : Definition :=
  ⟨markAt 3, "x", [],
    some (.call (markAt 4) "par"
      [.ref (markAt 5) "i", .number (markAt 6) (.infinite false) "1e999", .ref (markAt 7) "_"]),
    .start⟩

/-- A new definition with a number that is not finite is not local: the program `wire` has dimensions, and with
`endless` it has none. -/
theorem Program.not_local_endless : ((wire.extended endless).nodes.map (·.mark.id)).Nodup
    ∧ (∀ n ∈ wire.nodes.tail, ∀ m ∈ endless.nodes, m.mark.position.before n.mark.position = false)
    ∧ (∀ n ∈ wire.nodes, endless.name ∉ n.spelled)
    ∧ (wire.dimensions (wire.resolve standardPrimitives .empty).1 standardPrimitives).toOption.bind
      (·.dims.get? 1) = some ⟨1, 1⟩
    ∧ (wire.extended endless).dimensions ((wire.extended endless).resolve standardPrimitives .empty).1
      standardPrimitives = .error .infiniteCount := by
  have hdims : (sizeProgram ⟨(wire.resolve standardPrimitives .empty).1, standardPrimitives⟩ wire).dims.get? 1
        = some ⟨1, 1⟩
      ∧ (sizeProgram ⟨(wire.resolve standardPrimitives .empty).1, standardPrimitives⟩ wire).fault = none
      ∧ (sizeProgram ⟨(wire.resolve standardPrimitives .empty).1, standardPrimitives⟩ wire).findings = [] := by
    decide +kernel
  have hwire := dimensions_eq_ok_iff.mpr ⟨rfl, hdims.2.1, by rw [hdims.2.2]; rfl⟩
  refine ⟨by decide, by decide, by decide, ?_, ?_⟩
  · rw [hwire]
    exact hdims.1
  have hfault : (sizeProgram ⟨((wire.extended endless).resolve standardPrimitives .empty).1, standardPrimitives⟩
      (wire.extended endless)).fault = some .infiniteCount := by decide +kernel
  have hfindings : (sizeProgram ⟨((wire.extended endless).resolve standardPrimitives .empty).1, standardPrimitives⟩
      (wire.extended endless)).findings = [] := by decide +kernel
  unfold Program.dimensions
  simp only [hfindings, hfault, all_nil, if_true]

end Patchbay
