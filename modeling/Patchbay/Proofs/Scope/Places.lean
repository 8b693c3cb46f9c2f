import Patchbay.Proofs.Scope.LexicalScoping

/-!
# Where events stand

The events in a program stand at its nodes: names are used at boxes, and a name that is bound again is reported at a
definition and with the site of another one. What is reported about names stands there too. Only nodes that are met on
the way down count, where invalid definitions are not entered. A name that nothing binds is that of the box where it is
used.
-/

open List

namespace Patchbay

/-- All places that a finding names are those of some nodes, and a name that it is about is that of a box among them. -/
structure Finding.StandsAmong (nodes : List Node) (f : Finding) : Prop where
  places : ∀ q ∈ f.position :: f.issue.related, ∃ n ∈ nodes, n.mark.position = q
  named : ∀ name ∈ f.issue.named?, ∃ b, Node.box b ∈ nodes ∧ name ∈ b.name?

variable {n : Node} {issue : Issue} {f : Finding} {nodes : List Node} {entries : List (Symbol × Position)}

theorem Finding.StandsAmong.single (hn : n ∈ nodes) (h : issue.related = [])
    (hnamed : ∀ name ∈ issue.named?, ∃ b, Node.box b ∈ nodes ∧ name ∈ b.name?) :
    Finding.StandsAmong nodes ⟨n.mark.position, issue⟩ := by
  refine ⟨?_, hnamed⟩
  intro q hq
  rw [h] at hq
  exact ⟨n, hn, (mem_singleton.mp hq).symm⟩

theorem Finding.StandsAmong.pair {m : Node} (hn : n ∈ nodes) (hm : m ∈ nodes)
    (h : ∀ q ∈ issue.related, q = m.mark.position) (hnamed : issue.named? = none) :
    Finding.StandsAmong nodes ⟨n.mark.position, issue⟩ := by
  refine ⟨?_, by simp [hnamed]⟩
  intro q hq
  rcases mem_cons.mp hq with rfl | hq
  · exact ⟨n, hn, rfl⟩
  · exact ⟨m, hm, (h q hq).symm⟩

namespace Lexical

variable {nodes : List Node}

/-- A name bound twice is reported at its own place and with the site of an earlier one. -/
theorem standsAmong_of_mem_repeats {earlier : List Symbol}
    (hearlier : ∀ s ∈ earlier, ∀ q ∈ s.site, ∃ n ∈ nodes, n.mark.position = q)
    (hentries : ∀ e ∈ entries, (∃ n ∈ nodes, n.mark.position = e.2) ∧ ∀ q ∈ e.1.site, ∃ n ∈ nodes, n.mark.position = q)
    (hf : f ∈ repeats earlier entries) : f.StandsAmong nodes := by
  induction entries generalizing earlier with
  | nil => cases hf
  | cons entry rest ih =>
    obtain ⟨symbol, position⟩ := entry
    obtain ⟨⟨hposition, hsite⟩, hrest⟩ := forall_mem_cons.mp hentries
    rw [repeats] at hf
    split at hf
    · rename_i first hfirst
      rcases mem_cons.mp hf with rfl | hf
      · refine ⟨?_, by simp [Issue.named?]⟩
        intro q hq
        rcases mem_cons.mp hq with rfl | hq
        · exact hposition
        · exact hearlier first (mem_of_find?_eq_some hfirst) q (Option.mem_toList.mp hq)
      · exact ih hearlier hrest hf
    · refine ih ?_ hrest hf
      intro s hs
      rcases mem_append.mp hs with hs | hs
      · exact hearlier s hs
      · rw [mem_singleton.mp hs]
        exact hsite

theorem standsAmong_of_definitionEntries {ds : List Definition} (hds : ∀ d ∈ ds, Node.definition d ∈ nodes)
    (hf : f ∈ repeats [] (definitionEntries ds)) : f.StandsAmong nodes := by
  refine standsAmong_of_mem_repeats (by simp) ?_ hf
  intro e he
  obtain ⟨d, hd, rfl⟩ := mem_map.mp he
  have hsite : ∃ n ∈ nodes, n.mark.position = d.position := ⟨_, hds d hd, rfl⟩
  refine ⟨hsite, fun q hq => ?_⟩
  obtain rfl := Option.some.inj hq
  exact hsite

theorem standsAmong_of_parameterEntries {params : List String} {d : Definition} (hd : Node.definition d ∈ nodes)
    (hf : f ∈ repeats [] (parameterEntries params d.position)) : f.StandsAmong nodes := by
  have hsite : ∃ n ∈ nodes, n.mark.position = d.position := ⟨_, hd, rfl⟩
  refine standsAmong_of_mem_repeats (by simp) ?_ hf
  intro e he
  obtain ⟨param, -, rfl⟩ := mem_map.mp he
  refine ⟨hsite, fun q hq => ?_⟩
  obtain rfl := Option.some.inj hq
  exact hsite

/-- An event stands at some nodes. -/
def Event.StandsAmong (nodes : List Node) : Event → Prop
  | use o => ∃ x, Node.box x ∈ nodes ∧ x.mark = o.mark ∧ o.name ∈ x.name?
  | again f => f.StandsAmong nodes

theorem standsAmong_of_entryEvents (h : ∀ f ∈ repeats [] entries, f.StandsAmong nodes) :
    ∀ e ∈ entryEvents entries, e.StandsAmong nodes := by
  intro e he
  obtain ⟨f, hf, rfl⟩ := mem_map.mp he
  exact h f hf

theorem standsAmong_of_ownEvents (hentered : Entered nodes) (hn : n ∈ nodes) (env : Env) :
    ∀ e ∈ ownEvents env n, e.StandsAmong nodes := by
  intro e he
  cases n with
  | program | importing | declaration => cases he
  | definition d =>
    obtain ⟨_, -, he⟩ := mem_flatMap.mp he
    exact standsAmong_of_entryEvents (fun _ => standsAmong_of_parameterEntries hn) e he
  | box b =>
    cases b with
    | number | string | compose => cases he
    | ref | call =>
      obtain rfl := mem_singleton.mp he
      exact ⟨_, hn, rfl, rfl⟩
    | block mark body locals =>
      have hlocals : ∀ d ∈ locals, Node.definition d ∈ nodes :=
        fun d hd => hentered.box _ hn _ (by simp [Node.children, hd])
      exact standsAmong_of_entryEvents (fun _ => standsAmong_of_definitionEntries hlocals) e he

/-- What is visited is met on the way down. -/
theorem mem_of_visited (hentered : Entered nodes) (hn : n ∈ nodes) {env : Env} {v : Env × Node}
    (hv : v ∈ visited env n) :
    v.2 ∈ nodes := by
  have hchild := (sublist_visited env n).subset (mem_map_of_mem hv)
  cases n with
  | program | importing | declaration => cases hv
  | box b => exact hentered.box b hn _ hchild
  | definition d =>
    refine hentered.definition d hn ?_ _ hchild
    obtain ⟨body, hbody, -⟩ := mem_map.mp hv
    by_contra hinvalid
    simp [Definition.validBody?, hinvalid] at hbody

theorem standsAmong_of_nodeEvents (hentered : Entered nodes) (n : Node) (env : Env) (hn : n ∈ nodes) :
    ∀ e ∈ nodeEvents env n, e.StandsAmong nodes := by
  refine visit_induct (P := fun env n => n ∈ nodes → ∀ e ∈ nodeEvents env n, e.StandsAmong nodes) ?_ n env hn
  intro env n ih hn e he
  rw [nodeEvents_eq] at he
  rcases mem_append.mp he with he | he
  · exact standsAmong_of_ownEvents hentered hn env e he
  · obtain ⟨v, hv, he⟩ := mem_flatMap.mp he
    exact ih v hv (mem_of_visited hentered hn hv) e he

theorem standsAmong_of_finding? {imports : Imports} {context : Resolver.Context} {e : Event} (he : e.StandsAmong nodes)
    (h : e.finding? imports context = some f) : f.StandsAmong nodes := by
  cases e with
  | again g =>
    obtain rfl := Option.some.inj h
    exact he
  | use o =>
    obtain ⟨x, hx, hmark, hname⟩ := he
    simp only [Event.finding?, Occurrence.finding?] at h
    split at h
    · simp at h
    · obtain rfl := Option.some.inj h
      rw [← hmark]
      exact .single hx rfl fun name h => ⟨x, hx, hname.trans h⟩

/-- What is found while names are bound stands at the nodes that are met. -/
theorem standsAmong_of_entered {primitives : Primitives} {available : Libraries} {p : Program}
    (hentered : Entered nodes) (himports : ∀ statement ∈ p.imports, Node.importing statement ∈ nodes)
    (hdefinitions : ∀ d ∈ p.definitions, Node.definition d ∈ nodes) (hf : f ∈ (p.resolve primitives available).2) :
    f.StandsAmong nodes := by
  obtain ⟨-, -, hfindings⟩ := resolve_eq primitives available p
  rw [hfindings, (records_program primitives (serve_kept available p)).findings] at hf
  rcases mem_append.mp hf with hf | hf
  · obtain ⟨statement, hstatement, hfinding⟩ := mem_filterMap.mp hf
    unfold Resolver.importFinding? at hfinding
    split at hfinding
    · simp at hfinding
    · obtain rfl := Option.some.inj hfinding
      exact .single (himports statement hstatement) rfl (by simp [Issue.named?])
  · obtain ⟨e, he, hfinding⟩ := mem_filterMap.mp hf
    refine standsAmong_of_finding? ?_ hfinding
    rcases mem_append.mp he with he | he
    · exact standsAmong_of_entryEvents (fun _ => standsAmong_of_definitionEntries hdefinitions) e he
    · rw [definitionsEvents_eq] at he
      obtain ⟨d, hd, he⟩ := mem_flatMap.mp he
      exact standsAmong_of_nodeEvents hentered (.definition d) _ (hdefinitions d hd) e he

end Lexical

end Patchbay
