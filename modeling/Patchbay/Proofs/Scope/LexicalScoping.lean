import Mathlib.Data.List.Flatten
import Patchbay.Proofs.Scope.Imports

/-!
# Resolution is lexical scoping

The resolution of a program gives every name in its valid definitions the symbol that it means in its environment,
and no symbol to any other node. Names that mean nothing are reported, each once, and so are names bound twice in
one scope. A definition is counted as often as nodes are bound to it.
-/

open List

namespace Patchbay

variable {id : Nat} {p : Program} {available : Libraries} {o : Occurrence} {os : List Occurrence}

namespace Lexical

open Resolver

variable {imports : Imports}

/-! ## The records of occurrences -/

theorem get?_bind_of_ne (h : o.mark.id ≠ id) (bindings : Table Nat Symbol) :
    (o.bind imports bindings).get? id = bindings.get? id := by
  unfold Occurrence.bind
  split
  · exact Table.get?_insert_of_ne _ (Ne.symm h) _
  · rfl

/-- A node that is no occurrence keeps what it had. -/
theorem get?_foldl_bind_of_ne (h : ∀ o ∈ os, o.mark.id ≠ id) (bindings : Table Nat Symbol) :
    (os.foldl (Occurrence.bind imports) bindings).get? id = bindings.get? id := by
  induction os generalizing bindings with
  | nil => rfl
  | cons first rest ih =>
    have hrest : ∀ o ∈ rest, o.mark.id ≠ id := fun o ho => h o (mem_cons_of_mem _ ho)
    rw [foldl_cons, ih hrest, get?_bind_of_ne (h first mem_cons_self)]

/-- Of occurrences with different numbers, each is bound to what it means. -/
theorem get?_foldl_bind (hos : (os.map (·.mark.id)).Nodup) (ho : o ∈ os) (bindings : Table Nat Symbol)
    (h : bindings.get? o.mark.id = none) :
    (os.foldl (Occurrence.bind imports) bindings).get? o.mark.id = o.meaning? imports := by
  induction os generalizing bindings with
  | nil => cases ho
  | cons first rest ih =>
    rw [map_cons, nodup_cons] at hos
    obtain ⟨hfirst, hrest⟩ := hos
    rw [foldl_cons]
    rcases mem_cons.mp ho with rfl | ho
    · -- No later occurrence has the number of this one.
      have hlater : ∀ o' ∈ rest, o'.mark.id ≠ o.mark.id := by
        intro o' ho' heq
        exact hfirst (heq ▸ mem_map_of_mem ho')
      rw [get?_foldl_bind_of_ne hlater]
      unfold Occurrence.bind
      split
      · rename_i symbol hmeaning
        rw [Table.get?_insert_self, hmeaning]
      · rename_i hmeaning
        rw [h, hmeaning]
    · have hne : first.mark.id ≠ o.mark.id := by
        intro heq
        exact hfirst (heq ▸ mem_map_of_mem ho)
      exact ih hrest ho _ ((get?_bind_of_ne hne bindings).trans h)

/-- Whether a symbol stands for the definition with a number. -/
def refersTo (id : Nat) (symbol : Option Symbol) : Bool :=
  (symbol.bind (·.definition)).any (·.id == id)

/-- A definition is counted once for each occurrence that stands for it. -/
theorem getD_foldl_count (os : List Occurrence) (id : Nat) (references : Table Nat Nat) :
    ((os.foldl (Occurrence.count imports) references).get? id).getD 0
      = (references.get? id).getD 0 + os.countP fun o => refersTo id (o.meaning? imports) := by
  induction os generalizing references with
  | nil => rfl
  | cons o rest ih =>
    rw [foldl_cons, ih, countP_cons]
    have hstep : ((o.count imports references).get? id).getD 0
        = (references.get? id).getD 0 + if refersTo id (o.meaning? imports) then 1 else 0 := by
      unfold Occurrence.count
      cases o.meaning? imports with
      | none => rfl
      | some symbol =>
        cases hd : symbol.definition with
        | none => simp [countReference, refersTo, hd]
        | some d =>
          by_cases hid : d.id = id
          · simp [countReference, refersTo, hd, hid]
          · simp [countReference, refersTo, hd, hid, Table.get?_insert, Ne.symm hid]
    rw [hstep]
    omega

/-! ## Occurrences are nodes -/

/-- The number of a node where a name is used is that of the node. -/
theorem sublist_ownEvents (env : Env) (n : Node) :
    (((ownEvents env n).filterMap Event.use?).map (·.mark.id)).Sublist [n.mark.id] := by
  have hentries (entries : List (Symbol × Position)) : (entryEvents entries).filterMap Event.use? = [] :=
    (Lists.entries entries).uses
  cases n with
  | program | importing | declaration => exact nil_sublist _
  | definition d =>
    rw [ownEvents, filterMap_flatMap, hentries]
    simp
  | box b =>
    cases b with
    | number | string | compose => exact nil_sublist _
    | ref | call => exact Sublist.refl _
    | block mark body locals =>
      rw [ownEvents, hentries]
      exact nil_sublist _

theorem sublist_nodeEvents (n : Node) (env : Env) :
    (((nodeEvents env n).filterMap Event.use?).map (·.mark.id)).Sublist (n.nodes.map (·.mark.id)) := by
  refine visit_induct (P := fun env n => (((nodeEvents env n).filterMap Event.use?).map (·.mark.id)).Sublist
    (n.nodes.map (·.mark.id))) ?_ n env
  intro env n ih
  rw [nodeEvents_eq, n.nodes_eq, filterMap_append, map_append, map_cons, filterMap_flatMap,
    map_flatMap, map_flatMap]
  refine (sublist_ownEvents env n).append (.trans (Sublist.flatMap_right _ ih) ?_)
  have hvisited := (sublist_visited env n).flatMap fun m => m.nodes.map (·.mark.id)
  rwa [flatMap_map] at hvisited

/-- The numbers of the occurrences are among those of the nodes, in the same order. -/
theorem sublist_programOccurrences (primitives : Primitives) (p : Program) :
    ((programOccurrences primitives p).map (·.mark.id)).Sublist (p.nodes.map (·.mark.id)) := by
  rw [programOccurrences, ← (lists_definitionsEvents p.definitions _).uses, definitionsEvents_eq,
    filterMap_flatMap, map_flatMap, Program.nodes, map_cons, map_append, Definition.nodesAll_eq,
    map_flatMap]
  exact ((Sublist.flatMap_right _ fun d _ => sublist_nodeEvents (.definition d) _).trans
    (sublist_append_right _ _)).cons _

/-- Of different elements only those of a sublist count if no others satisfy the condition. -/
theorem countP_of_sublist {α : Type} {P : α → Bool} {l l' : List α} (h : l.Sublist l') (hl' : l'.Nodup)
    (hP : ∀ a ∈ l', a ∉ l → P a = false) : l'.countP P = l.countP P := by
  induction h with
  | slnil => rfl
  | @cons l l' a h ih =>
    rw [nodup_cons] at hl'
    have ha : a ∉ l := fun hmem => hl'.1 (h.subset hmem)
    rw [countP_cons_of_neg (by simp [hP a mem_cons_self ha])]
    exact ih hl'.2 fun b hb => hP b (mem_cons_of_mem _ hb)
  | @cons_cons l l' a h ih =>
    rw [nodup_cons] at hl'
    have hrest : l'.countP P = l.countP P := by
      refine ih hl'.2 ?_
      intro b hb hnot
      refine hP b (mem_cons_of_mem _ hb) ?_
      intro hmem
      rcases mem_cons.mp hmem with rfl | hmem
      · exact hl'.1 hb
      · exact hnot hmem
    rw [countP_cons, countP_cons, hrest]

/-! ## Programs -/

theorem ordered_start (primitives : Primitives) (findings : List Finding) :
    (start primitives findings).tree.Ordered := by
  intro i s hs parent hparent
  -- There are two scopes: that of the built-in boxes, and inside it that of the program.
  match i with
  | 0 =>
    obtain rfl : _ = s := Option.some.inj hs
    simp at hparent
  | 1 =>
    obtain rfl : _ = s := Option.some.inj hs
    exact ⟨0, (Option.some.inj hparent).symm, by omega⟩
  | _ + 2 => simp [start, ScopeTree.get?] at hs

/-- After the definitions of a program are bound, their scope sees the outermost environment. -/
theorem effect_start (imports : Imports) (context : Context) (primitives : Primitives) (p : Program)
    (findings : List Finding) :
    let s := start primitives findings
    let s' := bindDefinitions Resolution.globalScope p.definitions s
    Records imports context (entryEvents (definitionEntries p.definitions)) s s'
      ∧ s'.tree.Ordered
      ∧ Resolution.globalScope < s'.tree.size
      ∧ s'.tree.Sees Resolution.globalScope (programEnv primitives p) := by
  intro s s'
  have hempty : Holds Resolution.globalScope (some (Resolution.builtinScope : Int)) [] s :=
    ⟨.empty, rfl, fun _ => rfl⟩
  obtain ⟨hfills, bindings, hget, hbindings⟩ :=
    bindAll_spec (definitionEntries p.definitions) [] s hempty
  rw [← bindDefinitions_eq] at hfills hget
  have hordered : s'.tree.Ordered := hfills.ordered (ordered_start primitives findings)
  have hbuiltin : s'.tree.get? Resolution.builtinScope = some ⟨none, builtinBindings primitives⟩ :=
    hfills.others Resolution.builtinScope (by decide)
  have hframe : ∀ name, bindings.get? name = definitionFrame p.definitions name := by
    intro name
    rw [hbindings name]
    simp [definitionEntries, definitionFrame, Function.comp_def]
  have hsees := ScopeTree.Sees.cons hordered hget hframe (ScopeTree.Sees.root hordered hbuiltin)
  exact ⟨hfills.records, hordered, ScopeTree.lt_size_of_get? hget, hsees⟩

/-- The state before the definitions of a program are visited. -/
def programStart (primitives : Primitives) (available : Libraries) (p : Program) : State :=
  start primitives (p.imports.filterMap (importFinding? available))

/-- The state after the definitions of a program are visited. -/
def programStop (primitives : Primitives) (available : Libraries) (p : Program) : State :=
  visitDefinitions (programContext available p) Resolution.globalScope p.definitions
    (bindDefinitions Resolution.globalScope p.definitions (programStart primitives available p))

/-- The resolution of a program is read off the state that its visit ends in. -/
theorem resolve_eq (primitives : Primitives) (available : Libraries) (p : Program) :
    (∀ id, (p.resolve primitives available).1.symbol? id
      = (programStop primitives available p).bindings.get? id)
    ∧ (∀ d : Definition, (p.resolve primitives available).1.referenceCount d
      = ((programStop primitives available p).references.get? d.id).getD 0)
    ∧ (p.resolve primitives available).2 = (programStop primitives available p).findings :=
  ⟨fun _ => rfl, fun _ => rfl, rfl⟩

/-- The visit of a program records its events. -/
theorem records_program (primitives : Primitives) (h : imports.Serve (programContext available p)) :
    Records imports (programContext available p) (programEvents primitives p)
      (programStart primitives available p) (programStop primitives available p) := by
  obtain ⟨hstart, hordered, hsize, hsees⟩ := effect_start imports (programContext available p) primitives p
    (p.imports.filterMap (importFinding? available))
  have hvisit := effect_visitDefinitions h p.definitions _ _ _ hordered hsize hsees
  exact hstart.trans hvisit.records

section

variable {context : Context} {primitives : Primitives} {p : Program} {s s' : State}
  (h : Records imports context (programEvents primitives p) s s')

include h

theorem Records.undefined : s'.findings.filterMap undefined?
    = s.findings.filterMap undefined? ++ (programOccurrences primitives p).filterMap (Occurrence.unbound? imports) := by
  rw [h.findings, filterMap_append, (lists_programEvents primitives p).undefined]

theorem Records.repeated : s'.findings.filter isRepeat = s.findings.filter isRepeat ++ programRepeats p := by
  rw [h.findings, filter_append, (lists_programEvents primitives p).repeats]

end

/-- Every occurrence is bound to what it means. -/
theorem symbol?_of_mem (primitives : Primitives) (hids : (p.nodes.map (·.mark.id)).Nodup)
    (h : imports.Serve (programContext available p)) (ho : o ∈ programOccurrences primitives p) :
    (p.resolve primitives available).1.symbol? o.mark.id = o.meaning? imports := by
  have hnodup := (sublist_programOccurrences primitives p).nodup hids
  obtain ⟨hsymbol, -, -⟩ := resolve_eq primitives available p
  rw [hsymbol, (records_program primitives h).bindings, (lists_programEvents primitives p).uses]
  exact get?_foldl_bind hnodup ho _ rfl

/-- No other node is bound. -/
theorem symbol?_of_not_mem (primitives : Primitives) (available : Libraries) (p : Program)
    (hid : ∀ o ∈ programOccurrences primitives p, o.mark.id ≠ id) :
    (p.resolve primitives available).1.symbol? id = none := by
  obtain ⟨hsymbol, -, -⟩ := resolve_eq primitives available p
  rw [hsymbol, (records_program primitives (serve_kept available p)).bindings, (lists_programEvents primitives p).uses,
    get?_foldl_bind_of_ne hid]
  rfl

/-- A definition is counted as often as nodes are bound to it. -/
theorem referenceCount_eq (primitives : Primitives) (hids : (p.nodes.map (·.mark.id)).Nodup)
    (h : imports.Serve (programContext available p)) (d : Definition) :
    (p.resolve primitives available).1.referenceCount d
      = p.nodes.countP fun n => refersTo d.id ((p.resolve primitives available).1.symbol? n.mark.id) := by
  -- Nodes and occurrences are counted by their numbers; a node that is no occurrence is not bound.
  let P : Nat → Bool := fun id => refersTo d.id ((p.resolve primitives available).1.symbol? id)
  have hnodes : (p.nodes.map (·.mark.id)).countP P
      = ((programOccurrences primitives p).map (·.mark.id)).countP P := by
    refine countP_of_sublist (sublist_programOccurrences primitives p) hids ?_
    intro id _ hid
    have hnone : (p.resolve primitives available).1.symbol? id = none :=
      symbol?_of_not_mem primitives available p fun o ho heq => hid (heq ▸ mem_map_of_mem ho)
    simp only [P, hnone]
    rfl
  have hoccurrences : (programOccurrences primitives p).countP (fun o => P o.mark.id)
      = (programOccurrences primitives p).countP fun o => refersTo d.id (o.meaning? imports) := by
    refine countP_congr ?_
    intro o ho
    simp only [P, symbol?_of_mem primitives hids h ho]
  rw [countP_map, countP_map] at hnodes
  obtain ⟨-, hcount, -⟩ := resolve_eq primitives available p
  have hzero : ((programStart primitives available p).references.get? d.id).getD 0 = 0 := rfl
  rw [hcount, (records_program primitives h).references, (lists_programEvents primitives p).uses, getD_foldl_count,
    hzero, Nat.zero_add, ← hoccurrences]
  exact hnodes.symm

/-- A resolution reports unknown libraries, names that stand for nothing and names bound twice, and nothing else. -/
theorem perm_findings (primitives : Primitives) (h : imports.Serve (programContext available p)) :
    (p.resolve primitives available).2.Perm (p.imports.filterMap (importFinding? available)
      ++ ((programOccurrences primitives p).filterMap (Occurrence.finding? imports (programContext available p))
        ++ programRepeats p)) := by
  obtain ⟨-, -, hfindings⟩ := resolve_eq primitives available p
  rw [hfindings, (records_program primitives h).findings]
  exact ((lists_programEvents primitives p).perm_findings imports _).append_left _

/-- The library that is named most like this one. -/
def similarLibrary? (available : Libraries) (path : String) : Option String := Text.closest? ⟨3, 5⟩ path available.keys

/-- What is found while names are bound. -/
theorem kind_of_mem_resolve {primitives : Primitives} {f : Finding} (hf : f ∈ (p.resolve primitives available).2) :
    (f.issue.kind = .library ∧ ∃ path, f.issue = .unknownLibrary path (similarLibrary? available path))
      ∨ f.issue.kind = .undefined ∨ f.issue.kind = .duplicate := by
  have hserve := serve_kept available p
  rcases mem_append.mp ((perm_findings primitives hserve).mem_iff.mp hf) with hf | hf
  · obtain ⟨statement, -, hstatement⟩ := mem_filterMap.mp hf
    unfold importFinding? at hstatement
    split at hstatement
    · simp at hstatement
    · obtain rfl := Option.some.inj hstatement
      exact .inl ⟨rfl, _, rfl⟩
  · rcases mem_append.mp hf with hf | hf
    · obtain ⟨o, -, ho⟩ := mem_filterMap.mp hf
      unfold Occurrence.finding? at ho
      split at ho
      · simp at ho
      · obtain rfl := Option.some.inj ho
        exact .inr (.inl rfl)
    · -- Names bound twice are the findings that say so.
      have hrepeat := ((lists_programEvents primitives p).kinds f hf).1
      unfold isRepeat at hrepeat
      split at hrepeat
      · exact .inr (.inr rfl)
      · exact absurd hrepeat Bool.false_ne_true

/-- Unknown libraries are neither names without meaning nor names bound twice. -/
theorem findings_programStart (primitives : Primitives) (available : Libraries) (p : Program) :
    (programStart primitives available p).findings.filterMap undefined? = []
      ∧ (programStart primitives available p).findings.filter isRepeat = [] := by
  have hfindings : ∀ f ∈ p.imports.filterMap (importFinding? available),
      undefined? f = none ∧ isRepeat f = false := by
    intro f hf
    obtain ⟨i, -, hi⟩ := mem_filterMap.mp hf
    unfold importFinding? at hi
    split at hi
    · simp at hi
    · obtain rfl := Option.some.inj hi
      exact ⟨rfl, rfl⟩
  constructor
  · exact filterMap_eq_nil_iff.mpr fun f hf => (hfindings f hf).1
  · exact filter_eq_nil_iff.mpr fun f hf => by simp [(hfindings f hf).2]

end Lexical

/-- The resolution of a program whose nodes have different numbers is lexical scoping. Every name and call in its
valid definitions is bound to what it means in its environment, and no other node is bound; the names that mean
nothing are reported, each once, in order; each definition is counted as often as nodes are bound to it; and the
names bound again in their scope are reported, each once, with the site of the first. -/
theorem Program.resolve_lexical (primitives : Primitives) (available : Libraries) (p : Program)
    (hids : (p.nodes.map (·.mark.id)).Nodup) :
    (∀ o ∈ Lexical.programOccurrences primitives p,
      (p.resolve primitives available).1.symbol? o.mark.id
        = o.meaning? (Lexical.Imports.ofProgram available p))
    ∧ (∀ id, (∀ o ∈ Lexical.programOccurrences primitives p, o.mark.id ≠ id) →
      (p.resolve primitives available).1.symbol? id = none)
    ∧ (p.resolve primitives available).2.filterMap Lexical.undefined?
      = (Lexical.programOccurrences primitives p).filterMap
          (Lexical.Occurrence.unbound? (Lexical.Imports.ofProgram available p))
    ∧ (∀ d : Definition, (p.resolve primitives available).1.referenceCount d
      = p.nodes.countP fun n =>
          Lexical.refersTo d.id ((p.resolve primitives available).1.symbol? n.mark.id))
    ∧ (p.resolve primitives available).2.filter Lexical.isRepeat = Lexical.programRepeats p := by
  have hserve := Lexical.serve_programContext available p
  have hrecords := Lexical.records_program primitives hserve
  obtain ⟨-, -, hfindings⟩ := Lexical.resolve_eq primitives available p
  obtain ⟨hundefined, hrepeat⟩ := Lexical.findings_programStart primitives available p
  refine ⟨?_, ?_, ?_, ?_, ?_⟩
  · intro o ho
    exact Lexical.symbol?_of_mem primitives hids hserve ho
  · intro id hid
    exact Lexical.symbol?_of_not_mem primitives available p hid
  · rw [hfindings, hrecords.undefined, hundefined, nil_append]
  · intro d
    exact Lexical.referenceCount_eq primitives hids hserve d
  · rw [hfindings, hrecords.repeated, hrepeat, nil_append]

/-- A library that owns the prefix `os`. -/
def oscillators : Libraries := .ofList [("osc.lib", ⟨"osc.lib", .ofList [("os", "osc.lib")], .empty⟩)]

/-- A mark on line one whose column is its number. -/
def markAt (id : Nat) : Mark := ⟨id, ⟨1, id⟩, false⟩

/-- The program `import("osc.lib"); f(a, a) = par(i, a, i); process = f, g, os.saw;`. -/
def voices : Program where
  imports := [⟨markAt 1, "osc.lib"⟩]
  declarations := []
  definitions :=
    [⟨markAt 2, "f", ["a", "a"],
        some (.call (markAt 3) "par" [.ref (markAt 4) "i", .ref (markAt 5) "a", .ref (markAt 6) "i"]),
        .start⟩,
      ⟨markAt 7, "process", [],
        some (.compose (markAt 8) .par (.ref (markAt 9) "f")
          (.compose (markAt 10) .par (.ref (markAt 11) "g") (.ref (markAt 12) "os.saw"))),
        .start⟩]

/-- In `voices` the variable of the iteration is bound in its body, and not itself; `os.saw` belongs to the
library; `g` means nothing; and the second parameter is a repeated one. -/
theorem Program.resolve_lexical_voices :
    (voices.nodes.map (·.mark.id)).Nodup
    ∧ (voices.resolve .empty oscillators).1.symbol? 4 = none
    ∧ ((voices.resolve .empty oscillators).1.symbol? 6).map (fun s => (s.name, s.kind, s.site))
      = some ("i", .parameter, some ⟨1, 4⟩)
    ∧ ((voices.resolve .empty oscillators).1.symbol? 12).map (fun s => (s.name, s.kind, s.library))
      = some ("os.saw", .imported, some "osc.lib")
    ∧ (voices.resolve .empty oscillators).2.filterMap Lexical.undefined? = [(⟨1, 11⟩, "g")]
    ∧ (voices.resolve .empty oscillators).2.filter Lexical.isRepeat
      = [⟨⟨1, 2⟩, .duplicateName "a" (some ⟨1, 2⟩)⟩] := by
  have hids : (voices.nodes.map (·.mark.id)).Nodup := by decide +kernel
  obtain ⟨hbound, hunbound, hundefined, -, hrepeat⟩ := Program.resolve_lexical .empty oscillators voices hids
  have hbody := hbound _ (mem_of_getElem? (i := 2) rfl)
  have hlibrary := hbound _ (mem_of_getElem? (i := 5) rfl)
  refine ⟨hids, hunbound 4 (by decide +kernel), ?_, ?_, ?_, ?_⟩
  · exact (congrArg _ hbody).trans (by decide +kernel)
  · exact (congrArg _ hlibrary).trans (by decide +kernel)
  · exact hundefined.trans (by decide +kernel)
  · exact hrepeat.trans (by decide +kernel)

end Patchbay
