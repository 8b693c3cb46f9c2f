import Mathlib.Logic.Relation
import Patchbay.Proofs.Sizing.History

/-!
# Scans for delays, one after another

An analyzer is asked for dimensions and for delays in any order, and sizing a feedback asks for delays too. All scans
share one memory of definitions that are free of delays. `queries` lists the scans in order, each with the memory that
the one before left. Whatever was asked before, a scan ends, and it finds a delay exactly if a node that delays can be
reached: through the parts of nodes, and from names and calls to the bodies of the definitions they are bound to.
-/

open List

namespace Patchbay

/-! ## Reach -/

namespace Node

variable {r : Resolution}

/-- The symbol of a node, if it is a name or a call that is bound. -/
def symbol? (r : Resolution) : Node → Option Symbol
  | .box b => b.nameId?.bind r.symbol?
  | _ => none

/-- A node whose symbol is a delay: it is flagged as one, or it is imported and has no known dimension. -/
def Delays (r : Resolution) (n : Node) : Prop :=
  ∃ symbol, n.symbol? r = some symbol ∧ (symbol.delay = true ∨ symbol.kind = .imported ∧ symbol.arity = none)

/-- One node leads to another: to one of its parts, or to the body of the definition that it is bound to. -/
inductive Leads (r : Resolution) : Node → Node → Prop where
  | child {n m : Node} (h : m ∈ n.children) : Leads r n m
  | body {n : Node} {symbol : Symbol} {d : Definition} {body : Box} (hsymbol : n.symbol? r = some symbol)
      (hkind : symbol.kind = .userDefined) (hd : symbol.definition = some d) (hbody : d.body = some body) :
      Leads r n (.box body)

/-- A node that delays can be reached. -/
def ReachesDelay (r : Resolution) (n : Node) : Prop := ∃ m, Relation.ReflTransGen (Leads r) n m ∧ m.Delays r

end Node

variable {b x : Box} {m n : Node} {free' : List Nat} {qs : List Query}

namespace Delay

variable {r : Resolution} {free visited : List Nat}

theorem isDelay_iff (b : Box) : isDelay r b ↔ (Node.box b).Delays r := by
  unfold isDelay Node.Delays
  rw [Node.symbol?]
  cases b.nameId? with
  | none => simp
  | some id =>
    cases hsymbol : r.symbol? id with
    | none => simp [hsymbol]
    | some symbol => simp [hsymbol, Symbol.delays]

theorem referred?_eq_some_iff {d : Definition} :
    referred? r b = some d
      ↔ ∃ symbol, (Node.box b).symbol? r = some symbol ∧ symbol.kind = .userDefined ∧ symbol.definition = some d := by
  unfold referred? Resolution.userDefinition?
  rw [Node.symbol?]
  cases b.nameId? with
  | none => simp
  | some id =>
    cases hsymbol : r.symbol? id with
    | none => simp [hsymbol]
    | some symbol => simp [hsymbol]

/-- The boxes directly inside a box are those in its parts as a node. -/
theorem mem_parts_iff : x ∈ b.parts ↔ ∃ m ∈ (Node.box b).children, x ∈ entries m := by
  cases b <;> simp [Box.parts, Node.children, entries]

/-- What a part of a node holds is inside a box of the node. -/
theorem mem_of_child (hm : m ∈ n.children) (hb : b ∈ entries m) : b ∈ entries n ∨ ∃ x ∈ entries n, b ∈ x.parts := by
  cases n with
  | program p =>
    simp only [Node.children, mem_append, mem_map] at hm
    rcases hm with (⟨i, -, rfl⟩ | ⟨i, -, rfl⟩) | ⟨d, hd, rfl⟩
    · cases hb
    · cases hb
    · exact .inl (mem_filterMap.mpr ⟨d, hd, Option.mem_toList.mp hb⟩)
  | importing | declaration => cases hm
  | definition d =>
    obtain ⟨body, hbody, rfl⟩ := mem_map.mp hm
    obtain rfl : b = body := mem_singleton.mp hb
    exact .inl hbody
  | box x => exact .inr ⟨x, mem_singleton_self x, mem_parts_iff.mpr ⟨m, hm, hb⟩⟩

/-- A node that leads to one with a box that contains a delay has such a box itself. -/
theorem contains_of_leads (h : Node.Leads r n m) (hm : ∃ b ∈ entries m, Contains r b) :
    ∃ b ∈ entries n, Contains r b := by
  obtain ⟨b, hb, hcontains⟩ := hm
  cases h with
  | child hchild =>
    rcases mem_of_child hchild hb with hb | ⟨x, hx, hb⟩
    · exact ⟨b, hb, hcontains⟩
    · exact ⟨x, hx, hcontains.of_leads (.part hb)⟩
  | @body symbol d body hsymbol hkind hd hbody =>
    obtain rfl : b = body := mem_singleton.mp hb
    cases n with
    | box x =>
      have hreferred : referred? r x = some d := referred?_eq_some_iff.mpr ⟨symbol, hsymbol, hkind, hd⟩
      exact ⟨x, mem_singleton_self x, hcontains.of_leads (.follow hreferred hbody)⟩
    | program | importing | declaration | definition => simp [Node.symbol?] at hsymbol

/-- A node from which a delay is reached has a box that contains one. -/
theorem contains_of_reachesDelay (h : n.ReachesDelay r) : ∃ b ∈ entries n, Contains r b := by
  obtain ⟨m, hreach, hdelays⟩ := h
  induction hreach using Relation.ReflTransGen.head_induction_on with
  | refl =>
    cases m with
    | box b => exact ⟨b, mem_singleton_self b, b, .refl b, (isDelay_iff b).mpr hdelays⟩
    | program | importing | declaration | definition =>
      obtain ⟨symbol, hsymbol, -⟩ := hdelays
      simp [Node.symbol?] at hsymbol
  | head hleads _ ih => exact contains_of_leads hleads ih

/-- The boxes of a node can be reached from it. -/
theorem reach_entries (hb : b ∈ entries n) : Relation.ReflTransGen (Node.Leads r) n (.box b) := by
  cases n with
  | program p =>
    obtain ⟨d, hd, hbody⟩ := mem_filterMap.mp hb
    have hdefinition : Node.Leads r (.program p) (.definition d) :=
      .child (mem_append_right _ (mem_map_of_mem hd))
    exact (Relation.ReflTransGen.single hdefinition).tail (.child (by simp [Node.children, hbody]))
  | importing | declaration => cases hb
  | definition d => exact .single (.child (mem_map_of_mem hb))
  | box x =>
    rw [mem_singleton.mp hb]

/-- Where one box leads, a node leads in some steps. -/
theorem reach_of_leads (h : Leads r b x) : Relation.ReflTransGen (Node.Leads r) (.box b) (.box x) := by
  cases h with
  | part hx =>
    obtain ⟨m, hm, hx⟩ := mem_parts_iff.mp hx
    exact .head (.child hm) (reach_entries hx)
  | follow hd hbody =>
    obtain ⟨symbol, hsymbol, hkind, hdefinition⟩ := referred?_eq_some_iff.mp hd
    exact .single (.body hsymbol hkind hdefinition hbody)

theorem reachesDelay_of_contains (h : Contains r b) : (Node.box b).ReachesDelay r := by
  obtain ⟨x, hreach, hdelay⟩ := h
  refine ⟨.box x, ?_, (isDelay_iff x).mp hdelay⟩
  induction hreach with
  | refl b => exact .refl
  | step hleads _ ih => exact (reach_of_leads hleads).trans (ih hdelay)

/-- A delay is reached from a node exactly if one of its boxes contains a delay. -/
theorem reachesDelay_iff : n.ReachesDelay r ↔ ∃ b ∈ entries n, Contains r b := by
  constructor
  · exact contains_of_reachesDelay
  · rintro ⟨b, hb, hcontains⟩
    obtain ⟨m, hreach, hdelays⟩ := reachesDelay_of_contains hcontains
    exact ⟨m, (reach_entries hb).trans hreach, hdelays⟩

/-! ## The end of a search -/

/-- The search of boxes comes to an end by itself: it looks at the first one, and at what it leads to and the others
after it, until one delays or none is left. -/
inductive Ends (r : Resolution) (free : List Nat) :
    (pending : List Box) → (visited : List Nat) → (found : Bool) → (visited' : List Nat) → Prop where
  | nothing {visited : List Nat} : Ends r free [] visited false visited
  | found {b : Box} {pending : List Box} {visited : List Nat} (h : isDelay r b = true) :
      Ends r free (b :: pending) visited true visited
  | further {b : Box} {pending : List Box} {visited visited' : List Nat} {found : Bool} (h : isDelay r b = false)
      (hrest : Ends r free ((follow r free visited b).2 ++ b.parts ++ pending) (follow r free visited b).1
        found visited') : Ends r free (b :: pending) visited found visited'

/-- With fuel enough, a search gives what it ends with. -/
theorem ends_search (fuel : Nat) (pending : List Box) (visited : List Nat)
    (hfuel : Box.nodeCounts pending + referredWeight r visited < fuel) :
    Ends r free pending visited (search r free fuel pending visited).1 (search r free fuel pending visited).2 := by
  induction fuel generalizing pending visited with
  | zero => omega
  | succ fuel ih =>
    cases pending with
    | nil => exact .nothing
    | cons b pending =>
      cases hdelay : isDelay r b with
      | true =>
        rw [search, hdelay]
        exact .found hdelay
      | false =>
        have hweight := step_weight r free visited b pending
        rw [search_cons fuel b pending hdelay]
        exact .further hdelay (ih _ _ (by omega))

/-! ## Queries -/

/-- A question whether a delay can be reached from a node, asked when some definitions are known to be free of
delays. -/
structure Query where
  free : List Nat
  root : Node

namespace Query

/-- The answer to a query. -/
def answer (r : Resolution) (q : Query) : Bool := (scanNode r q.free q.root).1

/-- The definitions known to be free of delays after a query. -/
def freeAfter (r : Resolution) (q : Query) : List Nat := (scanNode r q.free q.root).2

/-- The search for a query ends, and the answer is whether a delay can be reached. -/
structure Exact (r : Resolution) (q : Query) : Prop where
  ends : ∃ visited, Ends r q.free (entries q.root) [] (q.answer r) visited
  answer : q.answer r = true ↔ q.root.ReachesDelay r

theorem exact (hr : Coherent r) {q : Query} (hfree : Free r q.free) : q.Exact r where
  ends := ⟨_, ends_search _ _ _ (weight_lt_fuel r q.root)⟩
  answer := (scanNode_spec hr hfree q.root).1.trans reachesDelay_iff.symm

end Query

/-- Queries one after another: each is asked with what the one before left, and the last one leaves `free'`. -/
inductive Consecutive (r : Resolution) : (free : List Nat) → List Query → (free' : List Nat) → Prop where
  | nil {free : List Nat} : Consecutive r free [] free
  | cons {q : Query} {qs : List Query} {free' : List Nat} (h : Consecutive r (q.freeAfter r) qs free') :
      Consecutive r q.free (q :: qs) free'

theorem Consecutive.append {qs' : List Query} {free'' : List Nat} (h : Consecutive r free qs free')
    (h' : Consecutive r free' qs' free'') : Consecutive r free (qs ++ qs') free'' := by
  induction h with
  | nil => exact h'
  | cons _ ih => exact .cons (ih h')

/-- Whatever was asked before, queries are answered exactly. -/
theorem Consecutive.exact (hr : Coherent r) (h : Consecutive r free qs free') (hfree : Free r free) :
    ∀ q ∈ qs, q.Exact r := by
  induction h with
  | nil => exact fun q hq => absurd hq not_mem_nil
  | @cons q qs free' _ ih =>
    intro x hx
    rcases mem_cons.mp hx with rfl | hx
    · exact Query.exact hr hfree
    · exact ih (scanNode_spec hr hfree q.root).2 x hx

end Delay

/-! ## Queries made while sizing -/

namespace Sizing

variable {c : Context} {s : State}

/-- The query that is made when a box is sized: about the right side of a feedback, if its dimensions fit. -/
def query? (c : Context) (s : State) : Box → Option Delay.Query
  | .compose mark .recur left right =>
    if mark.invalid || isParameter c right then none
    else
      match s.dim? left, s.dim? right with
      | some a, some b => (Dimension.compose .recur a b).map fun _ => ⟨s.delayFree, .box right⟩
      | _, _ => none
  | _ => none

/-- Sizing a box makes a query and reports a feedback without delay if the answer is no; otherwise it leaves alone
what is known about delays. -/
def Queried (c : Context) (s : State) (b : Box) (result : Option Dimension × State) : Option Delay.Query → Prop
  | some q => q.free = s.delayFree ∧ result.2.delayFree = q.freeAfter c.resolution
      ∧ result.2.findings = s.findings
        ++ if q.answer c.resolution then [] else [⟨b.position, .feedbackWithoutDelay⟩]
  | none => result.2.delayFree = s.delayFree

theorem delayFree_askLocals (locals : List Definition) (s : State) :
    (askLocals locals s).delayFree = s.delayFree := by
  induction locals generalizing s with
  | nil => rfl
  | cons d rest ih =>
    have hask : (s.askDefinition d d.position).2.delayFree = s.delayFree := by
      unfold State.askDefinition
      split
      · rfl
      · split <;> rfl
    exact (ih _).trans hask

/-- Only a feedback is searched for delays. -/
theorem delayFree_sizeBox (c : Context) (s : State) {b : Box}
    (h : ∀ mark left right, b ≠ .compose mark .recur left right) : (sizeBox c s b).2.delayFree = s.delayFree := by
  have hsizes := sizes_sizeBox c s b
  generalize sizeBox c s b = result at hsizes
  cases hsizes with
  | silent | mistake | cycle | stop => rfl
  | scan hb => exact absurd hb (h _ _ _)
  | locals => exact delayFree_askLocals _ s

theorem queried_feedback (c : Context) (s : State) {mark : Mark} (hvalid : mark.invalid = false) (left right : Box) :
    Queried c s (.compose mark .recur left right) (sizeComposition c s mark .recur left right)
      (query? c s (.compose mark .recur left right)) := by
  unfold sizeComposition
  cases hleft : s.dim? left with
  | none => simp [query?, Queried, hleft]
  | some a =>
    cases hright : s.dim? right with
    | none => simp [query?, Queried, hright]
    | some b =>
      cases hparameter : isParameter c right with
      | true => simp [query?, Queried, hparameter]
      | false =>
        cases hfits : Dimension.compose .recur a b with
        | none => simp [query?, Queried, hvalid, hparameter, hleft, hright, hfits, State.report]
        | some result =>
          simp only [query?, hvalid, hparameter, hleft, hright, hfits, Bool.or_self, Bool.and_false, if_true,
            Bool.false_eq_true, if_false, Option.map_some, Queried, true_and]
          -- The scan of the code is the query; its answer decides about the finding.
          cases hfound : (Delay.scan c.resolution s.delayFree right).1 with
          | true =>
            have hanswer : Delay.Query.answer c.resolution ⟨s.delayFree, .box right⟩ := hfound
            exact ⟨rfl, by simp [hanswer]⟩
          | false =>
            have hanswer : Delay.Query.answer c.resolution ⟨s.delayFree, .box right⟩ = false := hfound
            exact ⟨rfl, by simp [hanswer, State.report, Box.position, Box.mark]⟩

/-- Sizing a box makes no other query than its own. -/
theorem queried_sizeBox (c : Context) (s : State) (b : Box) : Queried c s b (sizeBox c s b) (query? c s b) := by
  by_cases hfeedback : ∃ mark left right, b = .compose mark .recur left right
  · obtain ⟨mark, left, right, rfl⟩ := hfeedback
    rw [sizeBox, Box.invalid, Box.mark]
    cases hinvalid : mark.invalid with
    | true => simp [query?, Queried, hinvalid]
    | false => exact queried_feedback c s hinvalid left right
  · have hother mark left right : b ≠ .compose mark .recur left right := fun hb => hfeedback ⟨mark, left, right, hb⟩
    have hnone : query? c s b = none := by
      unfold query?
      split
      · exact absurd rfl (hother _ _ _)
      · rfl
    rw [hnone]
    exact delayFree_sizeBox c s hother

/-- The query that is made at a moment of sizing. -/
def Moment.query? (c : Context) (m : Moment) : Option Delay.Query :=
  match m.action with
  | .sizing b => Sizing.query? c m.state b
  | _ => none

/-- An action makes its query and leaves what the query leaves. -/
theorem consecutive_after (c : Context) (s : State) (a : Action) :
    Delay.Consecutive c.resolution s.delayFree (Moment.query? c ⟨s, a⟩).toList (s.after c a).delayFree := by
  cases a with
  | opening d =>
    have hopen : (s.openDefinition d).delayFree = s.delayFree := (openDefinition_eq s d).2.2.2
    rw [State.after, hopen]
    exact .nil
  | preparing b => exact .nil
  | closing d =>
    have hclose : (s.closeDefinition d).delayFree = s.delayFree := (Course.frames_closeDefinition s d).2.2.2.1
    rw [State.after, hclose]
    exact .nil
  | sizing b =>
    have hqueried := queried_sizeBox c s b
    have henter : (s.after c (.sizing b)).delayFree = (sizeBox c s b).2.delayFree := (enter_eq _ b _).2.2.2.1
    rw [henter]
    dsimp only [Moment.query?]
    cases hquery : Sizing.query? c s b with
    | none =>
      rw [hquery] at hqueried
      rw [show (sizeBox c s b).2.delayFree = s.delayFree from hqueried]
      exact .nil
    | some q =>
      rw [hquery] at hqueried
      obtain ⟨hfree, hafter, -⟩ := hqueried
      rw [hafter, ← hfree]
      exact .cons .nil

/-- The queries of a run come one after another. -/
theorem consecutive_run (c : Context) (fuel : Nat) (s : State) :
    Delay.Consecutive c.resolution s.delayFree ((runHistory c fuel s).filterMap (Moment.query? c))
      (run c fuel s).delayFree := by
  induction fuel generalizing s with
  | zero => exact .nil
  | succ fuel ih =>
    rw [runHistory, run]
    split
    · exact .nil
    · rename_i hgo
      rw [Bool.or_eq_true, not_or] at hgo
      have hframes : s.frames ≠ [] := fun hframes => hgo.1 (by simp [hframes])
      obtain ⟨a, haction, -, hstep⟩ := exists_action? c [] hframes
      rw [haction, Option.map_some, Option.toList_some, filterMap_append, hstep]
      have hfirst : [(⟨s, a⟩ : Moment)].filterMap (Moment.query? c) = (Moment.query? c ⟨s, a⟩).toList := by
        cases hquery : Moment.query? c ⟨s, a⟩ <;> simp [hquery]
      rw [hfirst]
      exact (consecutive_after c s a).append (ih _)

/-! ## Requests -/

/-- What an analyzer can be asked: to size a definition, or whether a delay can be reached from a node. -/
inductive Request where
  | size (d : Definition)
  | delay (root : Node)

/-- The state after a request. -/
def State.serve (c : Context) (fuel : Nat) (s : State) : Request → State
  | .size d => sizeDefinition c fuel s d
  | .delay root => { s with delayFree := (Delay.scanNode c.resolution s.delayFree root).2 }

/-- The queries that are made to serve a request. -/
def requestQueries (c : Context) (fuel : Nat) (s : State) : Request → List Delay.Query
  | .size d => (definitionHistory c fuel s d).filterMap (Moment.query? c)
  | .delay root => [⟨s.delayFree, root⟩]

/-- The queries that are made to serve requests, one after another. -/
def queriesFrom (c : Context) (fuel : Nat) : State → List Request → List Delay.Query
  | _, [] => []
  | s, request :: rest => requestQueries c fuel s request ++ queriesFrom c fuel (s.serve c fuel request) rest

/-- All queries that an analyzer makes to serve requests. -/
def queries (c : Context) (fuel : Nat) (requests : List Request) : List Delay.Query :=
  queriesFrom c fuel .start requests

theorem consecutive_serve (c : Context) (fuel : Nat) (s : State) (request : Request) :
    Delay.Consecutive c.resolution s.delayFree (requestQueries c fuel s request)
      (s.serve c fuel request).delayFree := by
  cases request with
  | delay root => exact .cons (q := ⟨s.delayFree, root⟩) .nil
  | size d =>
    rw [requestQueries, State.serve, definitionHistory, sizeDefinition]
    split
    · exact .nil
    · rw [filterMap_cons_none rfl, ← (openDefinition_eq s d).2.2.2]
      exact consecutive_run c fuel (s.openDefinition d)

/-- The queries of requests come one after another, and leave what the last request leaves. -/
theorem consecutive_queriesFrom (c : Context) (fuel : Nat) (s : State) (requests : List Request) :
    Delay.Consecutive c.resolution s.delayFree (queriesFrom c fuel s requests)
      (requests.foldl (State.serve c fuel) s).delayFree := by
  induction requests generalizing s with
  | nil => exact .nil
  | cons request rest ih => exact (consecutive_serve c fuel s request).append (ih _)

end Sizing

open Sizing in
/-- Whatever an analyzer of a program whose nodes have different numbers was asked before, every scan for delays ends,
and it finds one exactly if a node that delays can be reached from where it starts. The scans are those asked for and
those made while sizing, each with the memory that the one before left; what sizing a feedback reports is decided by its
scan. -/
theorem Program.delay_queries_exact (primitives : Primitives) (available : Libraries) (p : Program)
    (hids : (p.nodes.map (·.mark.id)).Nodup) (fuel : Nat) (requests : List Request) :
    (∀ q ∈ queries (programSizing primitives available p) fuel requests, q.Exact (p.resolve primitives available).1)
    ∧ Delay.Consecutive (p.resolve primitives available).1 []
      (queries (programSizing primitives available p) fuel requests)
      (requests.foldl (State.serve (programSizing primitives available p) fuel) .start).delayFree
    ∧ ∀ s b, Queried (programSizing primitives available p) s b (sizeBox (programSizing primitives available p) s b)
      (query? (programSizing primitives available p) s b) := by
  have hconsecutive := consecutive_queriesFrom (programSizing primitives available p) fuel .start requests
  refine ⟨hconsecutive.exact (coherent_resolve primitives available hids) ?_, hconsecutive, queried_sizeBox _⟩
  intro i d body _ _ hid
  cases hid

/-- The program `process = + ~ back; back = _ : mem; a = b; b = a, a; c = b, back;`. -/
def entwined : Program where
  imports := []
  declarations := []
  definitions :=
    [⟨markAt 1, "process", [], some (.compose (markAt 2) .recur (.ref (markAt 3) "+") (.ref (markAt 4) "back")),
      .start⟩,
      ⟨markAt 5, "back", [], some (.compose (markAt 6) .seq (.ref (markAt 7) "_") (.ref (markAt 8) "mem")), .start⟩,
      ⟨markAt 9, "a", [], some (.ref (markAt 10) "b"), .start⟩,
      ⟨markAt 11, "b", [], some (.compose (markAt 12) .par (.ref (markAt 13) "a") (.ref (markAt 14) "a")), .start⟩,
      ⟨markAt 15, "c", [], some (.compose (markAt 16) .par (.ref (markAt 17) "b") (.ref (markAt 18) "back")), .start⟩]

open Sizing in
/-- In `entwined` the definitions `a` and `b` refer to each other and to no delay, and both are remembered after the
first scan. The scan made while `process` is sized finds the delay of `back`, as does that of `c`, which refers to
both. -/
theorem Program.delay_queries_exact_entwined :
    (entwined.nodes.map (·.mark.id)).Nodup
    ∧ ∃ qs, qs = queries (programSizing standardPrimitives .empty entwined) (fuelFor entwined)
        (((entwined.definition? "a").toList.map fun d => .delay (.definition d)) ++ entwined.definitions.map .size
          ++ entwined.definitions.map fun d => .delay (.definition d))
      ∧ qs.map (·.root.mark.id) = [9, 4, 1, 5, 9, 11, 15]
      ∧ qs.map (·.answer (entwined.resolve standardPrimitives .empty).1) = [false, true, true, true, false, false, true]
      ∧ ∀ q ∈ qs, q.Exact (entwined.resolve standardPrimitives .empty).1 := by
  have hids : (entwined.nodes.map (·.mark.id)).Nodup := by decide
  exact ⟨hids, _, rfl, by decide +kernel, by decide +kernel,
    (Program.delay_queries_exact standardPrimitives .empty entwined hids _ _).1⟩

end Patchbay
