import Patchbay.Proofs.Nodes
import Patchbay.Scope.Resolution

/-!
# Resolution does not enter invalid definitions

A program is pruned by dropping what stands in its invalid definitions, which keep their number, place and name. The
resolution of a pruned program is the resolution of the program, with the definitions in it pruned. The visit of a
program commutes with pruning step by step.
-/

open List

namespace Patchbay

/-! ## Pruned programs -/

mutual

/-- A box without what stands in its invalid definitions. -/
def Box.pruned : Box → Box
  | .ref mark name => .ref mark name
  | .number mark value text => .number mark value text
  | .string mark value => .string mark value
  | .call mark name args => .call mark name (Box.prunedAll args)
  | .compose mark op left right => .compose mark op left.pruned right.pruned
  | .block mark body locals => .block mark body.pruned (Definition.prunedAll locals)

/-- Boxes without what stands in their invalid definitions. -/
def Box.prunedAll : List Box → List Box
  | [] => []
  | b :: bs => b.pruned :: Box.prunedAll bs

/-- A definition without what stands in invalid ones. One that is invalid itself loses its parameters, its body and
its end. -/
def Definition.pruned : Definition → Definition
  | ⟨mark, name, params, none, stop⟩ =>
    if mark.invalid then ⟨mark, name, [], none, mark.position⟩ else ⟨mark, name, params, none, stop⟩
  | ⟨mark, name, params, some body, stop⟩ =>
    if mark.invalid then ⟨mark, name, [], none, mark.position⟩ else ⟨mark, name, params, some body.pruned, stop⟩

/-- Definitions without what stands in invalid ones. -/
def Definition.prunedAll : List Definition → List Definition
  | [] => []
  | d :: ds => d.pruned :: Definition.prunedAll ds

end

/-- A program without what stands in its invalid definitions. -/
def Program.pruned (p : Program) : Program := { p with definitions := Definition.prunedAll p.definitions }

theorem Box.prunedAll_eq (bs : List Box) : Box.prunedAll bs = bs.map Box.pruned := by
  induction bs with
  | nil => rfl
  | cons b rest ih => rw [Box.prunedAll, ih, map_cons]

theorem Definition.prunedAll_eq (ds : List Definition) : Definition.prunedAll ds = ds.map Definition.pruned := by
  induction ds with
  | nil => rfl
  | cons d rest ih => rw [Definition.prunedAll, ih, map_cons]

theorem Definition.mark_pruned (d : Definition) : d.pruned.mark = d.mark := by
  obtain ⟨mark, name, params, body, stop⟩ := d
  cases body with
  | none | some body =>
    rw [pruned]
    split <;> rfl

theorem Definition.name_pruned (d : Definition) : d.pruned.name = d.name := by
  obtain ⟨mark, name, params, body, stop⟩ := d
  cases body with
  | none | some body =>
    rw [pruned]
    split <;> rfl

theorem Definition.pruned_of_valid {d : Definition} (h : d.mark.invalid = false) :
    d.pruned = { d with body := d.body.map Box.pruned } := by
  match d, h with
  | ⟨_, _, _, none, _⟩, h | ⟨_, _, _, some _, _⟩, h => exact if_neg (Bool.eq_false_iff.mp h)

/-! ## Pruned symbols and scopes -/

namespace Table

variable {κ α β : Type}

/-- A table with its values passed through a function. -/
def mapValues (f : α → β) (t : Table κ α) : Table κ β :=
  ⟨t.entries.map fun e => (e.1, f e.2), by simpa [Function.comp_def] using t.distinct⟩

variable (f : α → β) (t : Table κ α)

theorem keys_mapValues : (t.mapValues f).keys = t.keys := by
  simp [keys, mapValues]

variable [DecidableEq κ]

theorem get?_mapValues (key : κ) : (t.mapValues f).get? key = (t.get? key).map f := by
  simp only [get?, mapValues]
  induction t.entries with
  | nil => rfl
  | cons e rest ih =>
    obtain ⟨k, v⟩ := e
    by_cases hk : k = key
    · simp [find?, hk]
    · simp only [map_cons, find?, hk, if_false, ih]

theorem mapValues_insert (key : κ) (value : α) :
    (t.insert key value).mapValues f = (t.mapValues f).insert key (f value) := by
  simp only [insert, mapValues, mk.injEq]
  induction t.entries with
  | nil => rfl
  | cons e rest ih =>
    obtain ⟨k, v⟩ := e
    by_cases hk : k = key
    · simp [set, hk]
    · simp only [set, hk, if_false, map_cons, ih]

/-- Passing the values through a function afterwards is passing each one that is written. -/
theorem mapValues_foldl {γ : Type} (key : γ → κ) (value : γ → α) (entries : List γ) :
    (entries.foldl (fun t e => t.insert (key e) (value e)) t).mapValues f
      = entries.foldl (fun t e => t.insert (key e) (f (value e))) (t.mapValues f) := by
  induction entries generalizing t with
  | nil => rfl
  | cons e rest ih => rw [foldl_cons, foldl_cons, ih, mapValues_insert]

end Table

/-- A symbol with its definition pruned. -/
def Symbol.pruned (s : Symbol) : Symbol := { s with definition := s.definition.map Definition.pruned }

/-- A scope with the definitions of its symbols pruned. -/
def Scope.pruned (s : Scope) : Scope := { s with bindings := s.bindings.mapValues Symbol.pruned }

/-- Scopes with the definitions of their symbols pruned. -/
def ScopeTree.pruned (t : ScopeTree) : ScopeTree := ⟨t.scopes.map Scope.pruned⟩

/-- A resolution with the definitions in it pruned. -/
def Resolution.pruned (r : Resolution) : Resolution :=
  { r with tree := r.tree.pruned, bindings := r.bindings.mapValues Symbol.pruned }

namespace ScopeTree

variable (t : ScopeTree)

theorem size_pruned : t.pruned.size = t.size := length_map _

theorem get?_pruned (scope : Nat) : t.pruned.get? scope = (t.get? scope).map Scope.pruned := getElem?_map

theorem place?_pruned (scope : Int) : t.pruned.place? scope = t.place? scope := by
  cases scope <;> rw [place?, place?, size_pruned]

theorem path_pruned (fuel : Nat) (scope : Option Int) :
    t.pruned.path fuel scope = ((t.path fuel scope).1.map Scope.pruned, (t.path fuel scope).2) := by
  induction fuel generalizing scope with
  | zero => rfl
  | succ fuel ih =>
    cases scope with
    | none => rfl
    | some scope =>
      rw [path, path, place?_pruned]
      cases t.place? scope with
      | none => rfl
      | some place =>
        rw [Option.bind_some, Option.bind_some, get?_pruned]
        cases t.get? place with
        | none => rfl
        | some s =>
          dsimp only [Option.map_some]
          rw [show s.pruned.parent = s.parent from rfl, ih]
          rfl

theorem above_pruned (scope : Option Int) : t.pruned.above scope = (t.above scope).map Scope.pruned := by
  rw [above, above, size_pruned, path_pruned]

theorem find?_pruned (scope : Option Int) (name : String) :
    t.pruned.find? scope name = (t.find? scope name).map Symbol.pruned := by
  rw [find?, find?, above_pruned, findSome?_map]
  induction t.above scope with
  | nil => rfl
  | cons s rest ih =>
    have hs : s.pruned.bindings.get? name = (s.bindings.get? name).map Symbol.pruned := Table.get?_mapValues _ _ _
    rw [findSome?_cons, findSome?_cons, ih, Function.comp_apply, hs]
    cases s.bindings.get? name <;> rfl

theorem visibleNames_pruned (scope : Option Int) : t.pruned.visibleNames scope = t.visibleNames scope := by
  rw [visibleNames, visibleNames, above_pruned, flatMap_map]
  congr 1
  funext s
  exact Table.keys_mapValues _ _

theorem add_pruned (parent : Option Int) : t.pruned.add parent = (t.add parent).pruned := by
  rw [pruned, pruned, add, add, map_append]
  rfl

theorem bind_pruned (scope : Nat) (symbol : Symbol) :
    t.pruned.bind scope symbol.pruned = (t.bind scope symbol).pruned := by
  refine congrArg ScopeTree.mk (ext_getElem? fun i => ?_)
  simp only [bind, pruned, getElem?_modify, getElem?_map, Option.map_eq_map]
  cases t.scopes[i]? with
  | none => rfl
  | some s =>
    by_cases hi : scope = i
    · simp only [hi, if_true, Option.map_some, Scope.pruned, Table.mapValues_insert]
      rfl
    · simp only [hi, if_false, Option.map_some]

theorem bound?_pruned (scope : Nat) (name : String) :
    t.pruned.bound? scope name = (t.bound? scope name).map Symbol.pruned := by
  rw [bound?, bound?, get?_pruned]
  cases t.get? scope with
  | none => rfl
  | some s => exact Table.get?_mapValues _ _ _

end ScopeTree

namespace Resolver

/-! ## Names -/

/-- What is known of libraries stands for no definition. -/
theorem definition_of_importedSymbol? {context : Context} {name : String} {symbol : Symbol}
    (h : importedSymbol? context name = some symbol) : symbol.definition = none := by
  unfold importedSymbol? at h
  split at h
  · simp at h
  · dsimp only at h
    split at h
    · rename_i hfound
      obtain rfl := Option.some.inj h
      obtain ⟨library, -, hlibrary⟩ := exists_of_findSome?_eq_some hfound
      split at hlibrary
      · obtain rfl := Option.some.inj hlibrary
        rfl
      · split at hlibrary
        · obtain rfl := Option.some.inj hlibrary
          rfl
        · simp at hlibrary
    · split at h
      · obtain rfl := Option.some.inj h
        rfl
      · simp at h

theorem pruned_of_definition {symbol : Symbol} (h : symbol.definition = none) : symbol.pruned = symbol := by
  rw [Symbol.pruned, h, Option.map_none, ← h]

theorem importedSymbol?_pruned (context : Context) (name : String) :
    (importedSymbol? context name).map Symbol.pruned = importedSymbol? context name := by
  cases h : importedSymbol? context name with
  | none => rfl
  | some symbol => rw [Option.map_some, pruned_of_definition (definition_of_importedSymbol? h)]

variable (context : Context) (scope : Nat)

theorem symbolOf?_pruned (t : ScopeTree) (name : String) :
    symbolOf? context t.pruned scope name = (symbolOf? context t scope name).map Symbol.pruned := by
  unfold symbolOf?
  rw [ScopeTree.find?_pruned]
  cases t.find? (some scope) name with
  | none => exact (importedSymbol?_pruned context name).symm
  | some symbol => rfl

theorem hint_pruned (t : ScopeTree) (name : String) : hint context t.pruned scope name = hint context t scope name := by
  unfold hint didYouMean
  rw [ScopeTree.visibleNames_pruned]

theorem countReference_pruned (references : Table Nat Nat) (symbol : Symbol) :
    countReference references symbol.pruned = countReference references symbol := by
  unfold countReference Symbol.pruned
  cases symbol.definition with
  | none => rfl
  | some d =>
    dsimp only [Option.map_some]
    rw [Definition.id, Definition.mark_pruned, Definition.id]

/-- A state with the definitions of its symbols pruned. -/
def State.pruned (s : State) : State :=
  { s with tree := s.tree.pruned, bindings := s.bindings.mapValues Symbol.pruned }

theorem reference_pruned (mark : Mark) (name : String) (s : State) :
    reference context scope mark name s.pruned = (reference context scope mark name s).pruned := by
  unfold reference State.pruned
  rw [symbolOf?_pruned, hint_pruned]
  cases symbolOf? context s.tree scope name with
  | none => rfl
  | some symbol =>
    dsimp only [Option.map_some]
    rw [Table.mapValues_insert, countReference_pruned]

/-! ## Scopes -/

theorem openScope_pruned (s : State) (parent : Nat) : s.pruned.openScope parent = (s.openScope parent).pruned := by
  unfold State.openScope State.pruned
  rw [ScopeTree.add_pruned]

theorem bindNew_pruned (symbol : Symbol) (position : Position) (s : State) :
    bindNew scope symbol.pruned position s.pruned = (bindNew scope symbol position s).pruned := by
  unfold bindNew State.pruned
  rw [show symbol.pruned.name = symbol.name from rfl, ScopeTree.bound?_pruned]
  cases s.tree.bound? scope symbol.name with
  | none =>
    dsimp only [Option.map_none]
    rw [ScopeTree.bind_pruned]
  | some existing => rfl

theorem definitionSymbol_pruned (d : Definition) : definitionSymbol d.pruned = (definitionSymbol d).pruned := by
  rw [definitionSymbol, definitionSymbol, Definition.name_pruned, Definition.position, Definition.mark_pruned]
  rfl

theorem bindDefinitions_pruned (ds : List Definition) (s : State) :
    bindDefinitions scope (Definition.prunedAll ds) s.pruned = (bindDefinitions scope ds s).pruned := by
  unfold bindDefinitions
  induction ds generalizing s with
  | nil => rfl
  | cons d rest ih =>
    rw [Definition.prunedAll, foldl_cons, foldl_cons, definitionSymbol_pruned, Definition.position,
      Definition.mark_pruned, bindNew_pruned, ih, Definition.position]

theorem bindParameters_pruned (d : Definition) (s : State) :
    bindParameters scope d s.pruned = (bindParameters scope d s).pruned := by
  unfold bindParameters
  induction d.params generalizing s with
  | nil => rfl
  | cons name rest ih =>
    rw [foldl_cons, foldl_cons, ← ih, ← bindNew_pruned]
    rfl

theorem isIteration_pruned (t : ScopeTree) (name : String) (args : List Box) :
    isIteration t.pruned scope name (Box.prunedAll args) = isIteration t scope name args := by
  unfold isIteration
  rw [ScopeTree.find?_pruned]
  cases args with
  | nil => rfl
  | cons binder rest =>
    cases binder with
    | number | string | call | compose | block => rfl
    | ref mark variableName =>
      match rest with
      | [] => rfl
      | [_] => rfl
      | _ :: _ :: _ :: _ => rfl
      | [_, _] => cases t.find? (some scope) name <;> rfl

/-! ## Visits -/

mutual

theorem visitBox_pruned (b : Box) (scope : Nat) (s : State) :
    visitBox context scope b.pruned s.pruned = (visitBox context scope b s).pruned := by
  cases b with
  | ref mark name =>
    rw [Box.pruned, visitBox, visitBox, reference_pruned]
  | number | string => rfl
  | compose mark op left right =>
    rw [Box.pruned, visitBox, visitBox, visitBox_pruned left, visitBox_pruned right]
  | block mark body locals =>
    rw [Box.pruned, visitBox, visitBox, openScope_pruned, show s.pruned.tree.size = s.tree.size from s.tree.size_pruned,
      bindDefinitions_pruned, visitBox_pruned body, visitDefinitions_pruned locals]
  | call mark name args =>
    rw [Box.pruned, visitBox, visitBox, show s.pruned.tree = s.tree.pruned from rfl, isIteration_pruned,
      ScopeTree.size_pruned, openScope_pruned]
    split
    · dsimp only
      rw [reference_pruned, visitIteration_pruned args]
    · rw [reference_pruned, visitBoxes_pruned args]
termination_by structural b

theorem visitBoxes_pruned (bs : List Box) (scope : Nat) (s : State) :
    visitBoxes context scope (Box.prunedAll bs) s.pruned = (visitBoxes context scope bs s).pruned := by
  cases bs with
  | nil => rfl
  | cons b rest => rw [Box.prunedAll, visitBoxes, visitBoxes, visitBox_pruned b, visitBoxes_pruned rest]
termination_by structural bs

theorem visitIteration_pruned (args : List Box) (scope inner : Nat) (s : State) :
    visitIteration context scope inner (Box.prunedAll args) s.pruned
      = (visitIteration context scope inner args s).pruned := by
  match args with
  | [] => rfl
  | [_] => rfl
  | [_, _] => rfl
  | _ :: _ :: _ :: _ :: _ => rfl
  | [binder, count, body] =>
    cases binder with
    | ref mark name =>
      have hbind : { s.pruned with tree := s.pruned.tree.bind inner (variableSymbol name mark.position) }
          = { s with tree := s.tree.bind inner (variableSymbol name mark.position) }.pruned := by
        unfold State.pruned
        rw [← ScopeTree.bind_pruned]
        rfl
      dsimp only [Box.prunedAll, Box.pruned, visitIteration]
      rw [hbind, visitBox_pruned count, visitBox_pruned body]
    | number | string | call | compose | block =>
      dsimp only [Box.prunedAll, Box.pruned, visitIteration]
      rw [visitBox_pruned count, visitBox_pruned body]
termination_by structural args

theorem visitDefinition_pruned (d : Definition) (scope : Nat) (s : State) :
    visitDefinition context scope d.pruned s.pruned = (visitDefinition context scope d s).pruned := by
  match d with
  | ⟨mark, name, params, none, stop⟩ =>
    rw [Definition.pruned]
    split <;> rfl
  | ⟨mark, name, params, some body, stop⟩ =>
    rw [Definition.pruned]
    split
    · rename_i hinvalid
      rw [visitDefinition, visitDefinition, if_pos hinvalid]
    · rename_i hvalid
      rw [visitDefinition, visitDefinition, if_neg hvalid, if_neg hvalid]
      split
      · exact visitBox_pruned body scope s
      · have hbind := bindParameters_pruned s.tree.size ⟨mark, name, params, some body, stop⟩ (s.openScope scope)
        rw [show s.pruned.tree.size = s.tree.size from s.tree.size_pruned, openScope_pruned,
          ← visitBox_pruned body, ← hbind]
        rfl
termination_by structural d

theorem visitDefinitions_pruned (ds : List Definition) (scope : Nat) (s : State) :
    visitDefinitions context scope (Definition.prunedAll ds) s.pruned
      = (visitDefinitions context scope ds s).pruned := by
  cases ds with
  | nil => rfl
  | cons d rest =>
    rw [Definition.prunedAll, visitDefinitions, visitDefinitions, visitDefinition_pruned d,
      visitDefinitions_pruned rest]
termination_by structural ds

end

theorem builtinBindings_pruned (primitives : Primitives) :
    (builtinBindings primitives).mapValues Symbol.pruned = builtinBindings primitives := by
  unfold builtinBindings Table.ofList
  rw [Table.mapValues_foldl, Table.mapValues_foldl, foldl_map, foldl_map]
  rfl

theorem start_pruned (primitives : Primitives) (findings : List Finding) :
    (start primitives findings).pruned = start primitives findings := by
  rw [State.pruned, start, ScopeTree.pruned, map_cons, map_cons, Scope.pruned, builtinBindings_pruned]
  rfl

end Resolver

/-- The resolution of a pruned program is that of the program with its definitions pruned, and the same is reported. -/
theorem Program.resolve_pruned (p : Program) (primitives : Primitives) (available : Libraries) :
    p.pruned.resolve primitives available
      = ((p.resolve primitives available).1.pruned, (p.resolve primitives available).2) := by
  unfold Program.resolve
  dsimp only [Program.pruned]
  rw [← Resolver.start_pruned, Resolver.bindDefinitions_pruned, Resolver.visitDefinitions_pruned, Resolver.start_pruned]
  rfl

end Patchbay
