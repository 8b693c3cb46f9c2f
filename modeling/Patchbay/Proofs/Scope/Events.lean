import Mathlib.Data.List.Forall2
import Patchbay.Proofs.Nodes
import Patchbay.Proofs.Scope.Hints

/-!
# What a visit comes across

A visit of a box comes across occurrences and across names that are bound again in their scope. `events` lists both in
the order of the visit. The `occurrences` of a box and its `boxRepeats` are the two halves of this list. Programs whose
events correspond one by one bind the same nodes, and what is reported about them corresponds one by one.
-/

open List

namespace Patchbay.Lexical

open Resolver (Context countReference)

/-! ## What an occurrence records -/

/-- Binds an occurrence to what it stands for. -/
def Occurrence.bind (imports : Imports) (bindings : Table Nat Symbol) (o : Occurrence) : Table Nat Symbol :=
  match o.meaning? imports with
  | some symbol => bindings.insert o.mark.id symbol
  | none => bindings

/-- Counts an occurrence for the definition it stands for. -/
def Occurrence.count (imports : Imports) (references : Table Nat Nat) (o : Occurrence) : Table Nat Nat :=
  match o.meaning? imports with
  | some symbol => countReference references symbol
  | none => references

/-- Place and name of an occurrence that stands for nothing. -/
def Occurrence.unbound? (imports : Imports) (o : Occurrence) : Option (Position × String) :=
  match o.meaning? imports with
  | some _ => none
  | none => some (o.mark.position, o.name)

/-- The finding of an occurrence that stands for nothing. -/
noncomputable def Occurrence.finding? (imports : Imports) (context : Context) (o : Occurrence) : Option Finding :=
  match o.meaning? imports with
  | some _ => none
  | none => some ⟨o.mark.position, .undefinedName o.name (hintIn context o.env o.name)⟩

/-- Place and name of a finding that a name stands for nothing. -/
def undefined? : Finding → Option (Position × String)
  | ⟨position, .undefinedName name _⟩ => some (position, name)
  | _ => none

/-- Whether a finding says that a name is bound twice. -/
def isRepeat : Finding → Bool
  | ⟨_, .duplicateName _ _⟩ => true
  | _ => false

/-! ## Events -/

/-- An occurrence, or the finding of a name that is bound again in its scope. -/
inductive Event where
  | use (o : Occurrence)
  | again (f : Finding)

namespace Event

def use? : Event → Option Occurrence
  | use o => some o
  | again _ => none

def again? : Event → Option Finding
  | use _ => none
  | again f => some f

/-- What is reported about an event. -/
noncomputable def finding? (imports : Imports) (context : Context) : Event → Option Finding
  | use o => o.finding? imports context
  | again f => some f

end Event

/-- The events of binding symbols in a new scope. -/
def entryEvents (entries : List (Symbol × Position)) : List Event := (repeats [] entries).map .again

mutual

/-- The events in a box. -/
def events (env : Env) : Box → List Event
  | .ref mark name => [.use ⟨mark, name, env⟩]
  | .number _ _ _ => []
  | .string _ _ => []
  | .compose _ _ left right => events env left ++ events env right
  | .block _ body locals =>
    entryEvents (definitionEntries locals)
      ++ (events (definitionFrame locals :: env) body ++ definitionsEvents (definitionFrame locals :: env) locals)
  | .call mark name args =>
    .use ⟨mark, name, env⟩ :: if isIteration env name args then iterationEvents env args else eventsAll env args

/-- The events in boxes. -/
def eventsAll (env : Env) : List Box → List Event
  | [] => []
  | b :: bs => events env b ++ eventsAll env bs

/-- The events in the count and in the body of an iteration. -/
def iterationEvents (env : Env) : List Box → List Event
  | [binder, count, body] => events env count ++ events (variableFrame binder :: env) body
  | _ => []

/-- The events in a definition. -/
def definitionEvents (env : Env) : Definition → List Event
  | ⟨_, _, _, none, _⟩ => []
  | ⟨mark, _, params, some body, _⟩ =>
    if mark.invalid then []
    else entryEvents (parameterEntries params mark.position)
      ++ events (parameterFrame params mark.position :: env) body

/-- The events in definitions. -/
def definitionsEvents (env : Env) : List Definition → List Event
  | [] => []
  | d :: ds => definitionEvents env d ++ definitionsEvents env ds

end

/-- The events in the valid definitions of a program. -/
def programEvents (primitives : Primitives) (p : Program) : List Event :=
  entryEvents (definitionEntries p.definitions) ++ definitionsEvents (programEnv primitives p) p.definitions

/-! ## One level of a visit -/

/-- The events at a node itself. -/
def ownEvents (env : Env) : Node → List Event
  | .box (.ref mark name) => [.use ⟨mark, name, env⟩]
  | .box (.call mark name _) => [.use ⟨mark, name, env⟩]
  | .box (.block _ _ locals) => entryEvents (definitionEntries locals)
  | .definition d => d.validBody?.toList.flatMap fun _ => entryEvents (parameterEntries d.params d.position)
  | _ => []

/-- The parts of a node that are visited, each with the scopes around it. -/
def visited (env : Env) : Node → List (Env × Node)
  | .box (.compose _ _ left right) => [(env, .box left), (env, .box right)]
  | .box (.block _ body locals) =>
    (definitionFrame locals :: env, .box body) :: locals.map fun d => (definitionFrame locals :: env, .definition d)
  | .box (.call _ name [binder, count, body]) =>
    if isIteration env name [binder, count, body] then [(env, .box count), (variableFrame binder :: env, .box body)]
    else [(env, .box binder), (env, .box count), (env, .box body)]
  | .box (.call _ _ args) => args.map fun b => (env, .box b)
  | .definition d => d.validBody?.toList.map fun body => (parameterFrame d.params d.position :: env, .box body)
  | _ => []

/-- The events in a box or in a definition. -/
def nodeEvents (env : Env) : Node → List Event
  | .box b => events env b
  | .definition d => definitionEvents env d
  | _ => []

theorem eventsAll_eq (env : Env) (bs : List Box) : eventsAll env bs = bs.flatMap (events env) := by
  induction bs with
  | nil => rfl
  | cons b rest ih => rw [eventsAll, ih, flatMap_cons]

theorem definitionsEvents_eq (env : Env) (ds : List Definition) :
    definitionsEvents env ds = ds.flatMap (definitionEvents env) := by
  induction ds with
  | nil => rfl
  | cons d rest ih => rw [definitionsEvents, ih, flatMap_cons]

theorem definitionsOccurrences_eq (env : Env) (ds : List Definition) :
    definitionsOccurrences env ds = ds.flatMap (definitionOccurrences env) := by
  induction ds with
  | nil => rfl
  | cons d rest ih => rw [definitionsOccurrences, ih, flatMap_cons]

variable {env : Env} {name : String} {args : List Box}

theorem exists_of_isIteration (h : isIteration env name args) :
    ∃ mark variableName count body, args = [.ref mark variableName, count, body] := by
  unfold isIteration at h
  split at h
  · exact ⟨_, _, _, _, rfl⟩
  · exact absurd h Bool.false_ne_true

/-- Of a call that is no iteration all arguments are visited in the scopes around it. -/
theorem visited_call (h : ¬ isIteration env name args) (mark : Mark) :
    visited env (.box (.call mark name args)) = args.map fun b => (env, .box b) := by
  unfold visited
  split <;> simp_all

theorem visited_iteration {binder count body : Box} (h : isIteration env name [binder, count, body])
    (mark : Mark) :
    visited env (.box (.call mark name [binder, count, body]))
      = [(env, .box count), (variableFrame binder :: env, .box body)] := if_pos h

/-- The events in a node are its own and those in the parts that are visited. -/
theorem nodeEvents_eq (env : Env) (n : Node) :
    nodeEvents env n = ownEvents env n ++ (visited env n).flatMap fun v => nodeEvents v.1 v.2 := by
  cases n with
  | program | importing | declaration => rfl
  | definition d =>
    match d with
    | ⟨mark, name, params, none, stop⟩ =>
      have hnone : Definition.validBody? ⟨mark, name, params, none, stop⟩ = none := ite_self _
      simp [nodeEvents, definitionEvents, ownEvents, visited, hnone]
    | ⟨mark, name, params, some body, stop⟩ =>
      rw [nodeEvents, definitionEvents]
      by_cases hinvalid : mark.invalid
      · simp [ownEvents, visited, Definition.validBody?, Definition.invalid, hinvalid]
      · simp [nodeEvents, ownEvents, visited, Definition.validBody?, Definition.invalid, Definition.position, hinvalid]
  | box b =>
    cases b with
    | ref | number | string => rfl
    | compose mark op left right => simp [nodeEvents, events, ownEvents, visited]
    | block mark body locals =>
      simp [nodeEvents, events, ownEvents, visited, definitionsEvents_eq, flatMap_map]
    | call mark name args =>
      rw [nodeEvents, events]
      by_cases hiter : isIteration env name args
      · obtain ⟨variableMark, variableName, count, body, rfl⟩ := exists_of_isIteration hiter
        rw [if_pos hiter, visited_iteration hiter]
        simp [ownEvents, iterationEvents, nodeEvents]
      · rw [if_neg hiter, visited_call hiter]
        simp [ownEvents, eventsAll_eq, nodeEvents, flatMap_map]

/-- The parts that are visited are parts, in their order. -/
theorem sublist_visited (env : Env) (n : Node) : ((visited env n).map (·.2)).Sublist n.children := by
  cases n with
  | program | importing | declaration => exact nil_sublist _
  | definition d =>
    rw [visited, Node.children, map_map, Definition.validBody?]
    split
    · exact nil_sublist _
    · exact Sublist.refl _
  | box b =>
    cases b with
    | ref | number | string => exact Sublist.refl _
    | compose mark op left right => exact Sublist.refl _
    | block mark body locals => simp [visited, Node.children, Function.comp_def]
    | call mark name args =>
      by_cases hiter : isIteration env name args
      · obtain ⟨variableMark, variableName, count, body, rfl⟩ := exists_of_isIteration hiter
        rw [visited_iteration hiter]
        exact sublist_cons_self _ _
      · rw [visited_call hiter, map_map]
        exact Sublist.refl _

/-- What holds of a node whenever it holds of the parts that are visited holds of every node, in all scopes. -/
theorem visit_induct {P : Env → Node → Prop} (h : ∀ env n, (∀ v ∈ visited env n, P v.1 v.2) → P env n) (n : Node) :
    ∀ env, P env n := by
  induction n using Node.induct with
  | h n ih =>
    intro env
    exact h env n fun v hv => ih v.2 ((sublist_visited env n).subset (mem_map_of_mem hv)) v.1

/-! ## The halves of a list of events -/

/-- All that binding reports are names bound twice. -/
theorem isRepeat_of_mem_repeats (entries : List (Symbol × Position)) (earlier : List Symbol) :
    ∀ f ∈ repeats earlier entries, isRepeat f ∧ undefined? f = none := by
  induction entries generalizing earlier with
  | nil => simp [repeats]
  | cons entry rest ih =>
    obtain ⟨symbol, position⟩ := entry
    intro f hf
    rw [repeats] at hf
    split at hf
    · rcases mem_cons.mp hf with rfl | hf
      · exact ⟨rfl, rfl⟩
      · exact ih _ f hf
    · exact ih _ f hf

/-- Events are these occurrences and these findings of names bound twice, each in order. -/
structure Lists (es : List Event) (os : List Occurrence) (found : List Finding) : Prop where
  uses : es.filterMap Event.use? = os
  repeated : es.filterMap Event.again? = found
  kinds : ∀ f ∈ found, isRepeat f = true ∧ undefined? f = none

namespace Lists

variable {es es' : List Event} {os os' : List Occurrence} {found found' : List Finding} {o : Occurrence}

theorem nil : Lists [] [] [] := ⟨rfl, rfl, fun _ hf => absurd hf not_mem_nil⟩

theorem use (h : Lists es os found) : Lists (.use o :: es) (o :: os) found :=
  ⟨congrArg (o :: ·) h.uses, h.repeated, h.kinds⟩

theorem entries (entries : List (Symbol × Position)) : Lists (entryEvents entries) [] (repeats [] entries) := by
  refine ⟨?_, ?_, isRepeat_of_mem_repeats entries []⟩
  · simp [entryEvents, Event.use?, Function.comp_def]
  · simp [entryEvents, Event.again?, Function.comp_def]

theorem append (h : Lists es os found) (h' : Lists es' os' found') :
    Lists (es ++ es') (os ++ os') (found ++ found') := by
  refine ⟨?_, ?_, ?_⟩
  · rw [filterMap_append, h.uses, h'.uses]
  · rw [filterMap_append, h.repeated, h'.repeated]
  · intro f hf
    rcases mem_append.mp hf with hf | hf
    · exact h.kinds f hf
    · exact h'.kinds f hf

variable (imports : Imports) (context : Context)

/-- What is reported about events in some order. -/
theorem perm_findings (h : Lists es os found) :
    (es.filterMap (Event.finding? imports context)).Perm
      (os.filterMap (Occurrence.finding? imports context) ++ found) := by
  obtain ⟨rfl, rfl, -⟩ := h
  induction es with
  | nil => exact .nil
  | cons e rest ih =>
    cases e with
    | use o =>
      have hstep : (Event.use o).finding? imports context = o.finding? imports context := rfl
      cases ho : o.finding? imports context with
      | none | some f => simpa [filterMap_cons, Event.use?, Event.again?, hstep, ho] using ih
    | again f => exact (ih.cons f).trans perm_middle.symm

theorem undefined (h : Lists es os found) :
    (es.filterMap (Event.finding? imports context)).filterMap undefined?
      = os.filterMap (Occurrence.unbound? imports) := by
  obtain ⟨rfl, rfl, hkinds⟩ := h
  rw [filterMap_filterMap, filterMap_filterMap]
  refine filterMap_congr ?_
  intro e he
  cases e with
  | use o =>
    simp only [Event.finding?, Event.use?, Occurrence.finding?, Occurrence.unbound?, Option.bind_some]
    cases o.meaning? imports <;> rfl
  | again f => exact (hkinds f (mem_filterMap.mpr ⟨_, he, rfl⟩)).2

theorem repeats (h : Lists es os found) :
    (es.filterMap (Event.finding? imports context)).filter isRepeat = found := by
  obtain ⟨rfl, rfl, hkinds⟩ := h
  rw [filter_filterMap]
  refine filterMap_congr ?_
  intro e he
  cases e with
  | use o =>
    simp only [Event.finding?, Event.again?, Occurrence.finding?]
    cases o.meaning? imports <;> rfl
  | again f =>
    have hrepeat := (hkinds f (mem_filterMap.mpr ⟨_, he, rfl⟩)).1
    simp [Event.finding?, Event.again?, hrepeat]

end Lists

mutual

theorem lists_events (b : Box) (env : Env) : Lists (events env b) (occurrences env b) (boxRepeats b) := by
  cases b with
  | ref mark name => exact .use .nil
  | number | string => exact .nil
  | compose mark op left right => exact (lists_events left env).append (lists_events right env)
  | block mark body locals =>
    exact (Lists.entries _).append ((lists_events body _).append (lists_definitionsEvents locals _))
  | call mark name args =>
    rw [events, occurrences, boxRepeats]
    refine .use ?_
    cases hiter : isIteration env name args with
    | true => exact lists_iterationEvents args env (exists_of_isIteration hiter)
    | false => exact lists_eventsAll args env

theorem lists_eventsAll (bs : List Box) (env : Env) :
    Lists (eventsAll env bs) (occurrencesAll env bs) (boxesRepeats bs) := by
  cases bs with
  | nil => exact .nil
  | cons b rest => exact (lists_events b env).append (lists_eventsAll rest env)

theorem lists_iterationEvents (args : List Box) (env : Env)
    (hargs : ∃ mark name count body, args = [.ref mark name, count, body]) :
    Lists (iterationEvents env args) (iterationOccurrences env args) (boxesRepeats args) := by
  match args with
  | [] | [_] | [_, _] | _ :: _ :: _ :: _ :: _ => simp at hargs
  | [binder, count, body] =>
    -- The variable is a name, in which nothing is bound.
    obtain ⟨mark, name, _, _, hargs⟩ := hargs
    obtain rfl : binder = .ref mark name := (List.cons.inj hargs).1
    have hrepeats : boxesRepeats [.ref mark name, count, body] = boxRepeats count ++ boxRepeats body := by
      simp [boxesRepeats, boxRepeats]
    rw [hrepeats]
    exact (lists_events count env).append (lists_events body _)

theorem lists_definitionEvents (d : Definition) (env : Env) :
    Lists (definitionEvents env d) (definitionOccurrences env d) (definitionRepeats d) := by
  match d with
  | ⟨_, _, _, none, _⟩ => exact .nil
  | ⟨mark, name, params, some body, stop⟩ =>
    rw [definitionEvents, definitionOccurrences, definitionRepeats]
    split
    · exact .nil
    · exact (Lists.entries _).append (lists_events body _)

theorem lists_definitionsEvents (ds : List Definition) (env : Env) :
    Lists (definitionsEvents env ds) (definitionsOccurrences env ds) (definitionsRepeats ds) := by
  cases ds with
  | nil => exact .nil
  | cons d rest => exact (lists_definitionEvents d env).append (lists_definitionsEvents rest env)

end

/-- The events of a program are its occurrences and its names bound twice. -/
theorem lists_programEvents (primitives : Primitives) (p : Program) :
    Lists (programEvents primitives p) (programOccurrences primitives p) (programRepeats p) :=
  (Lists.entries _).append (lists_definitionsEvents p.definitions _)

/-! ## Events that correspond -/

theorem forall₂_map_eq_iff {α β : Type} {f : α → β} {l l' : List α} :
    Forall₂ (fun a b => f b = f a) l l' ↔ l'.map f = l.map f := by
  rw [eq_comm, ← forall₂_eq_eq_eq, forall₂_map_left_iff, forall₂_map_right_iff]
  simp only [eq_comm]

section

variable (imports : Imports) (context : Context) (S : Symbol → Symbol → Prop) (F : Finding → Finding → Prop)

/-- Two events correspond: the same node stands for symbols that are related, or is reported with findings that are
related; or a name is bound again with findings that are related. -/
inductive Event.Alike : Event → Event → Prop
  | use {o o' : Occurrence} (hmark : o'.mark = o.mark)
      (hmeaning : Option.Rel S (o.meaning? imports) (o'.meaning? imports))
      (hfinding : ∀ hint hint', F ⟨o.mark.position, .undefinedName o.name hint⟩
        ⟨o'.mark.position, .undefinedName o'.name hint'⟩) :
      Event.Alike (.use o) (.use o')
  | again {f f' : Finding} (h : F f f') : Event.Alike (.again f) (.again f')

theorem alike_entryEvents {entries entries' : List (Symbol × Position)}
    (h : Forall₂ F (repeats [] entries) (repeats [] entries')) :
    Forall₂ (Event.Alike imports S F) (entryEvents entries) (entryEvents entries') := by
  unfold entryEvents
  rw [forall₂_map_left_iff, forall₂_map_right_iff]
  exact h.imp fun _ _ hf => .again hf

/-- The same nodes are bound, to symbols that are related. -/
def BoundAlike (t t' : Table Nat Symbol) : Prop := ∀ id, Option.Rel S (t.get? id) (t'.get? id)

theorem BoundAlike.empty : BoundAlike S .empty .empty := fun _ => .none

variable {imports S F} {t t' : Table Nat Symbol} {es es' : List Event}

theorem BoundAlike.bind (ht : BoundAlike S t t') {o o' : Occurrence} (hmark : o'.mark = o.mark)
    (hmeaning : Option.Rel S (o.meaning? imports) (o'.meaning? imports)) :
    BoundAlike S (o.bind imports t) (o'.bind imports t') := by
  unfold Occurrence.bind
  rw [hmark]
  generalize o.meaning? imports = symbol, o'.meaning? imports = symbol' at hmeaning
  cases hmeaning with
  | none => exact ht
  | some hsymbol =>
    intro id
    rw [Table.get?_insert, Table.get?_insert]
    split
    · exact .some hsymbol
    · exact ht id

/-- Events that correspond bind the same nodes. -/
theorem BoundAlike.foldl (h : Forall₂ (Event.Alike imports S F) es es') (ht : BoundAlike S t t') :
    BoundAlike S ((es.filterMap Event.use?).foldl (Occurrence.bind imports) t)
      ((es'.filterMap Event.use?).foldl (Occurrence.bind imports) t') := by
  induction h generalizing t t' with
  | nil => exact ht
  | cons he _ ih =>
    cases he with
    | use hmark hmeaning => exact ih (ht.bind hmark hmeaning)
    | again => exact ih ht

/-- What is reported about events that correspond is related one by one. -/
theorem findings_alike (h : Forall₂ (Event.Alike imports S F) es es') :
    Forall₂ F (es.filterMap (Event.finding? imports context)) (es'.filterMap (Event.finding? imports context)) := by
  induction h with
  | nil => exact .nil
  | cons he _ ih =>
    rw [filterMap_cons, filterMap_cons]
    cases he with
    | again hf => exact .cons hf ih
    | @use o o' hmark hmeaning hfinding =>
      simp only [Event.finding?, Occurrence.finding?]
      generalize o.meaning? imports = symbol, o'.meaning? imports = symbol' at hmeaning
      cases hmeaning with
      | none => exact .cons (hfinding _ _) ih
      | some => exact ih

end

end Patchbay.Lexical
