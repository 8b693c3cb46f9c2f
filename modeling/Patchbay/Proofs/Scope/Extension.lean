import Patchbay.Proofs.Scope.Places

/-!
# Names do not see a definition that nobody names

A program is extended by a definition at its end. The scope of the program then binds one more name. As long as the
program neither binds nor mentions this name, a visit comes across the same as before: it looks up other names only, so
it binds the same nodes to the same symbols and reports the same, apart from the hints, which may propose the new name.

The new definition is visited last. Its events bind only nodes that it holds, and are reported only at their places.
-/

open List

namespace Patchbay

/-- The names that are spelled out at a node, to bind them or to refer to them. -/
def Node.spelled : Node → List String
  | .definition d => d.name :: d.params
  | .box (.ref _ name) => [name]
  | .box (.call _ name _) => [name]
  | _ => []

/-- A program with one more definition at its end. -/
def Program.extended (p : Program) (d : Definition) : Program := { p with definitions := p.definitions ++ [d] }

/-- The diagnostic of a finding without what it suggests. -/
def Finding.unadvised (f : Finding) : Diagnostic := { f.toDiagnostic with suggestion := none }

namespace Lexical

variable {name other : String} {env env' : Env} {imports : Imports}

/-! ## Environments that differ in one name -/

/-- Two environments are the same but for what a name stands for. -/
def Env.SameBut (name : String) (env env' : Env) : Prop :=
  ∀ other, other ≠ name → env'.lookup other = env.lookup other

theorem Env.SameBut.cons (h : env.SameBut name env') (frame : Frame) :
    Env.SameBut name (frame :: env) (frame :: env') := by
  intro other hother
  have hlookup := h other hother
  unfold Env.lookup at hlookup ⊢
  rw [findSome?_cons, findSome?_cons, hlookup]

theorem Env.SameBut.isIteration (h : env.SameBut name env') (hother : other ≠ name) (args : List Box) :
    Lexical.isIteration env' other args = Lexical.isIteration env other args := by
  unfold Lexical.isIteration
  rw [h other hother]

/-- Events are the same if a node stands for the same symbol, and if the same is reported apart from hints. -/
abbrev EventsSame (imports : Imports) (es es' : List Event) : Prop :=
  Forall₂ (Event.Alike imports Eq fun f f' => f'.unadvised = f.unadvised) es es'

theorem eq_of_rel_eq {α : Type} {a b : Option α} (h : Option.Rel Eq a b) : b = a := by
  cases h with
  | none => rfl
  | some h => rw [h]

theorem eventsSame_use (h : env.SameBut name env') (hother : other ≠ name) (mark : Mark) {es es' : List Event}
    (hes : EventsSame imports es es') :
    EventsSame imports (.use ⟨mark, other, env⟩ :: es) (.use ⟨mark, other, env'⟩ :: es') := by
  have hmeaning : Lexical.meaning? imports env' other = Lexical.meaning? imports env other := by
    unfold Lexical.meaning?
    rw [h other hother]
  refine .cons (.use rfl ?_ fun _ _ => rfl) hes
  unfold Occurrence.meaning?
  rw [hmeaning]
  cases Lexical.meaning? imports env other with
  | none => exact .none
  | some => exact .some rfl

theorem eventsSame_entries (entries : List (Symbol × Position)) :
    EventsSame imports (entryEvents entries) (entryEvents entries) :=
  alike_entryEvents imports _ _ (forall₂_same.mpr fun _ _ => rfl)

theorem eventsSame_ownEvents {n : Node} (hn : name ∉ n.spelled) (h : env.SameBut name env') :
    EventsSame imports (ownEvents env n) (ownEvents env' n) := by
  cases n with
  | program | importing | declaration => exact .nil
  | definition d =>
    refine rel_flatMap (R := Eq) (forall₂_same.mpr fun _ _ => rfl) ?_
    exact fun _ _ _ => eventsSame_entries _
  | box b =>
    cases b with
    | number | string | compose => exact .nil
    | ref mark other | call mark other args =>
      exact eventsSame_use h (fun heq => hn (by simp [Node.spelled, heq])) mark .nil
    | block mark body locals => exact eventsSame_entries _

/-- The same parts are visited, in scopes that are the same but for the name. -/
theorem sameBut_visited {n : Node} (hn : name ∉ n.spelled) (h : env.SameBut name env') :
    Forall₂ (fun v v' => v'.2 = v.2 ∧ v.1.SameBut name v'.1) (visited env n) (visited env' n) := by
  have hmap {α : Type} (as : List α) (f : α → Node) {env env' : Env} (h : env.SameBut name env') :
      Forall₂ (fun v v' : Env × Node => v'.2 = v.2 ∧ v.1.SameBut name v'.1) (as.map fun a => (env, f a))
        (as.map fun a => (env', f a)) := by
    rw [forall₂_map_left_iff, forall₂_map_right_iff]
    exact forall₂_same.mpr fun _ _ => ⟨rfl, h⟩
  cases n with
  | program | importing | declaration => exact .nil
  | definition d => exact hmap _ _ (h.cons _)
  | box b =>
    cases b with
    | ref | number | string => exact .nil
    | compose mark op left right => exact .cons ⟨rfl, h⟩ (.cons ⟨rfl, h⟩ .nil)
    | block mark body locals => exact .cons ⟨rfl, h.cons _⟩ (hmap _ _ (h.cons _))
    | call mark other args =>
      have hother : other ≠ name := fun heq => hn (by simp [Node.spelled, heq])
      have hsame := h.isIteration hother args
      by_cases hiter : isIteration env other args
      · obtain ⟨variableMark, variableName, count, body, rfl⟩ := exists_of_isIteration hiter
        rw [visited_iteration hiter, visited_iteration (hsame.trans hiter)]
        exact .cons ⟨rfl, h⟩ (.cons ⟨rfl, h.cons _⟩ .nil)
      · rw [visited_call hiter, visited_call (hsame ▸ hiter)]
        exact hmap _ _ h

/-- The events in a node that does not hold the name. -/
theorem eventsSame_node (n : Node) (hn : ∀ m ∈ n.nodes, name ∉ m.spelled) (env env' : Env) (h : env.SameBut name env') :
    EventsSame imports (nodeEvents env n) (nodeEvents env' n) := by
  induction n using Node.induct generalizing env env' with
  | h n ih =>
    rw [n.nodes_eq, forall_mem_cons] at hn
    rw [nodeEvents_eq, nodeEvents_eq]
    refine rel_append (eventsSame_ownEvents hn.1 h) ?_
    have hvisited := (forall₂_and_left _ _).mpr
      ⟨fun v hv => (sublist_visited env n).subset (mem_map_of_mem hv), sameBut_visited hn.1 h⟩
    refine rel_flatMap hvisited ?_
    rintro ⟨env, _⟩ ⟨env', m⟩ ⟨hm, rfl, henv⟩
    exact ih m hm (fun k hk => hn.2 k (mem_flatMap.mpr ⟨m, hm, hk⟩)) env env' henv

/-! ## Extended programs -/

/-- A new name at the end is not bound again. -/
theorem repeats_append_of_new {entries : List (Symbol × Position)} {earlier : List Symbol} {symbol : Symbol}
    (hearlier : ∀ s ∈ earlier, s.name ≠ symbol.name) (hentries : ∀ e ∈ entries, e.1.name ≠ symbol.name)
    (position : Position) : repeats earlier (entries ++ [(symbol, position)]) = repeats earlier entries := by
  induction entries generalizing earlier with
  | nil =>
    have hnone : Frame.ofSymbols earlier symbol.name = none :=
      find?_eq_none.mpr fun s hs heq => hearlier s hs (beq_iff_eq.mp heq)
    simp [repeats, hnone]
  | cons entry rest ih =>
    rcases forall_mem_cons.mp hentries with ⟨hentry, hrest⟩
    rw [cons_append, repeats, repeats]
    split
    · rw [ih hearlier hrest]
    · refine ih ?_ hrest
      intro s hs
      rcases mem_append.mp hs with hs | hs
      · exact hearlier s hs
      · rw [mem_singleton.mp hs]
        exact hentry

section

variable {p : Program} {d : Definition} (primitives : Primitives) (available : Libraries)
  (hname : ∀ n ∈ p.nodes, d.name ∉ n.spelled)

include hname

/-- The events of the extended program are those of the program and those of the new definition. -/
theorem programEvents_extended (imports : Imports) :
    ∃ es, programEvents primitives (p.extended d)
        = es ++ definitionEvents (programEnv primitives (p.extended d)) d
      ∧ EventsSame imports (programEvents primitives p) es := by
  have hdefinitions : ∀ n ∈ Definition.nodesAll p.definitions, d.name ∉ n.spelled := by
    intro n hn
    exact hname n (mem_cons_of_mem _ (mem_append_right _ hn))
  have hnames : ∀ e ∈ p.definitions, e.name ≠ d.name := by
    intro e he heq
    exact hdefinitions _ (Definition.mem_nodesAll he) (by simp [Node.spelled, heq])
  -- The new definition is bound behind the others, and none of them has its name.
  have hentries : repeats [] (definitionEntries (p.extended d).definitions)
      = repeats [] (definitionEntries p.definitions) := by
    rw [show definitionEntries (p.extended d).definitions
      = definitionEntries p.definitions ++ [(Resolver.definitionSymbol d, d.position)] from map_append]
    refine repeats_append_of_new (by simp) ?_ d.position
    intro e he
    obtain ⟨f, hf, rfl⟩ := mem_map.mp he
    exact hnames f hf
  have henv : (programEnv primitives p).SameBut d.name (programEnv primitives (p.extended d)) := by
    intro other hother
    have hframe : definitionFrame (p.extended d).definitions other = definitionFrame p.definitions other := by
      simp [definitionFrame, Program.extended, Frame.ofSymbols, find?_append, Resolver.definitionSymbol,
        Ne.symm hother]
    simp only [programEnv, Env.lookup, findSome?_cons, hframe]
  have hsame : EventsSame imports (definitionsEvents (programEnv primitives p) p.definitions)
      (definitionsEvents (programEnv primitives (p.extended d)) p.definitions) := by
    rw [definitionsEvents_eq, definitionsEvents_eq]
    refine rel_flatMap (R := fun e e' => e = e' ∧ e ∈ p.definitions) (forall₂_same.mpr fun e he => ⟨rfl, he⟩) ?_
    rintro e _ ⟨rfl, he⟩
    refine eventsSame_node (.definition e) (fun n hn => hdefinitions n ?_) _ _ henv
    rw [Definition.nodesAll_eq]
    exact mem_flatMap.mpr ⟨e, he, hn⟩
  refine ⟨_, ?_, rel_append (eventsSame_entries _) hsame⟩
  rw [programEvents, entryEvents, hentries, show (p.extended d).definitions = p.definitions ++ [d] from rfl,
    definitionsEvents_eq, flatMap_append, flatMap_singleton, definitionsEvents_eq, List.append_assoc]
  rfl

/-- Nodes that are not in the new definition are bound to what they were bound to. -/
theorem symbol?_extended {id : Nat} (hid : ∀ n ∈ d.nodes, n.mark.id ≠ id) :
    ((p.extended d).resolve primitives available).1.symbol? id = (p.resolve primitives available).1.symbol? id := by
  have hserve := serve_kept available p
  rcases programEvents_extended primitives hname (Imports.kept available p) with ⟨es, hes, hsame⟩
  have hbound := BoundAlike.foldl hsame (.empty _) id
  have hnew : ∀ o ∈ (definitionEvents (programEnv primitives (p.extended d)) d).filterMap Event.use?,
      o.mark.id ≠ id := by
    intro o ho
    obtain ⟨e, he, huse⟩ := mem_filterMap.mp ho
    cases e with
    | again f => simp [Event.use?] at huse
    | use o' =>
      obtain rfl := Option.some.inj huse
      obtain ⟨x, hx, hmark, -⟩ := standsAmong_of_nodeEvents d.partsIn_nodes.entered (.definition d) _ d.mem_nodes _ he
      rw [← hmark]
      exact hid _ hx
  show (programStop primitives available (p.extended d)).bindings.get? id
    = (programStop primitives available p).bindings.get? id
  rw [(records_program primitives hserve).bindings, (records_program (p := p.extended d) primitives hserve).bindings,
    hes, filterMap_append, foldl_append, get?_foldl_bind_of_ne hnew]
  exact eq_of_rel_eq hbound

/-- What is reported about the names of the extended program is what was reported before, apart from hints, and then
what is reported at places of the new definition. -/
theorem findings_extended :
    ∃ old new, ((p.extended d).resolve primitives available).2 = old ++ new
      ∧ old.map Finding.unadvised = (p.resolve primitives available).2.map Finding.unadvised
      ∧ ∀ f ∈ new, ∃ n ∈ d.nodes, n.mark.position = f.position := by
  have hserve := serve_kept available p
  have hrecords := records_program primitives hserve
  have hrecords' := records_program (p := p.extended d) primitives hserve
  rcases programEvents_extended primitives hname (Imports.kept available p) with ⟨es, hes, hsame⟩
  have hfindings := hrecords'.findings
  rw [hes, filterMap_append, ← List.append_assoc] at hfindings
  refine ⟨_, _, hfindings, ?_, ?_⟩
  · show _ = (programStop primitives available p).findings.map Finding.unadvised
    rw [hrecords.findings, map_append, map_append]
    exact congrArg _ (forall₂_map_eq_iff.mp (findings_alike _ hsame))
  · intro f hf
    obtain ⟨e, he, hfinding⟩ := mem_filterMap.mp hf
    have hstands := standsAmong_of_nodeEvents d.partsIn_nodes.entered (.definition d) _ d.mem_nodes e he
    exact (standsAmong_of_finding? hstands hfinding).places _ mem_cons_self

end

end Lexical

end Patchbay
