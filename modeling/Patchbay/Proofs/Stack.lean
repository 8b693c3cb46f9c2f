import Mathlib.Data.List.Flatten
import Patchbay.Proofs.Analysis.Controls
import Patchbay.Scope.Resolution

/-!
# Walks with a stack

Programs are walked by recursion. A walk can also keep a stack of tasks: the task on top is taken off and done,
and the parts that it leaves to do are put on top, the first one uppermost. If a step leaves nothing to do but
parts of its own node, then the stack runs empty and the result is that of the recursion (`runStack_eq`). So it is
for the list of nodes, the names and the controls of a program.
-/

open List

namespace Patchbay

section

variable {τ σ : Type} (step : τ → σ → σ × List τ)

/-- Does the tasks on a stack, and what they leave to do, until it is empty; nothing if the fuel runs out. -/
def runStack : (fuel : Nat) → List τ → σ → Option σ
  | _, [], s => some s
  | 0, _ :: _, _ => none
  | fuel + 1, task :: tasks, s => runStack fuel ((step task s).2 ++ tasks) (step task s).1

/-- Parts of a node have fewer nodes together than it has. -/
theorem Node.length_flatMap_nodes_lt {n : Node} {parts : List Node} (h : parts <+ n.children) :
    (parts.flatMap Node.nodes).length < n.nodes.length := by
  rw [n.nodes_eq, length_cons]
  exact Nat.lt_succ_of_le (h.flatMap Node.nodes).length_le

/-- Of a recursion: it does a step and then the parts of its node that the step leaves to do. -/
def IsRecursion (node : τ → Node) (visit : τ → σ → σ) : Prop :=
  ∀ task s, (step task s).2.map node <+ (node task).children
    ∧ visit task s = (step task s).2.foldl (fun s t => visit t s) (step task s).1

variable {step}

/-- A stack with fuel for all nodes of its tasks does what the recursion does. -/
theorem runStack_eq {node : τ → Node} {visit : τ → σ → σ} (h : IsRecursion step node visit) {fuel : Nat}
    (tasks : List τ) (s : σ) (hfuel : ((tasks.map node).flatMap Node.nodes).length ≤ fuel) :
    runStack step fuel tasks s = some (tasks.foldl (fun s t => visit t s) s) := by
  induction fuel generalizing tasks s with
  | zero =>
    cases tasks with
    | nil => rfl
    | cons task tasks => simp [(node task).nodes_eq] at hfuel
  | succ fuel ih =>
    cases tasks with
    | nil => rfl
    | cons task tasks =>
      -- A unit of fuel goes for the task itself, and the parts that replace it have fewer nodes than it had.
      obtain ⟨hparts, hvisit⟩ := h task s
      have hless := Node.length_flatMap_nodes_lt hparts
      rw [runStack, ih, foldl_append, ← hvisit, foldl_cons]
      simp only [map_cons, map_append, flatMap_cons, flatMap_append, length_append] at hfuel ⊢
      omega

end

/-! ## Nodes -/

/-- Lists a node and leaves its parts to do. -/
def Node.listStep (n : Node) (listed : List Node) : List Node × List Node := (listed ++ [n], n.children)

theorem Node.isRecursion_nodes : IsRecursion listStep id fun n listed => listed ++ n.nodes := by
  intro n listed
  dsimp only [listStep]
  rw [map_id, foldl_append_eq_append, ← flatMap_def, n.nodes_eq, append_assoc, singleton_append]
  exact ⟨Sublist.refl _, rfl⟩

/-- A stack lists the nodes below a node in their order. -/
theorem Node.runStack_listStep (n : Node) {fuel : Nat} (hfuel : n.nodes.length ≤ fuel) :
    runStack listStep fuel [n] [] = some n.nodes :=
  runStack_eq isRecursion_nodes [n] [] (by simpa using hfuel)

/-! ## Names -/

namespace Resolver

/-- Resolves the name of one node seen from a scope, and leaves its parts to do, each seen from its own scope. -/
def visitStep (context : Context) : Node × Nat → State → State × List (Node × Nat)
  | (.definition ⟨_, _, _, none, _⟩, _), s => (s, [])
  | (.definition ⟨mark, name, params, some body, stop⟩, scope), s =>
    if mark.invalid then (s, [])
    else if params.isEmpty then (s, [(.box body, scope)])
    else
      (bindParameters s.tree.size ⟨mark, name, params, some body, stop⟩ (s.openScope scope),
        [(.box body, s.tree.size)])
  | (.box (.block _ body locals), scope), s =>
    (bindDefinitions s.tree.size locals (s.openScope scope),
      (.box body, s.tree.size) :: locals.map (.definition ·, s.tree.size))
  | (.box (.call mark name args), scope), s =>
    if isIteration s.tree scope name args then
      match args with
      | [.ref binder variableName, count, body] =>
        let t := reference context scope mark name (s.openScope scope)
        ({ t with tree := t.tree.bind s.tree.size (variableSymbol variableName binder.position) },
          [(.box count, scope), (.box body, s.tree.size)])
      | _ => (s, [])
    else (reference context scope mark name s, args.map (.box ·, scope))
  | (.box (.ref mark name), scope), s => (reference context scope mark name s, [])
  | (.box b, scope), s => (s, (Node.box b).children.map (·, scope))
  | _, s => (s, [])

variable (context : Context)

/-- Resolves the names of a node seen from a scope. -/
def visit : Node × Nat → State → State
  | (.definition d, scope), s => visitDefinition context scope d s
  | (.box b, scope), s => visitBox context scope b s
  | _, s => s

theorem visitBoxes_eq_foldl (scope : Nat) (bs : List Box) (s : State) :
    visitBoxes context scope bs s = (bs.map (Node.box ·, scope)).foldl (fun s t => visit context t s) s := by
  induction bs generalizing s with
  | nil => rfl
  | cons b bs ih => exact ih _

theorem visitDefinitions_eq_foldl (scope : Nat) (ds : List Definition) (s : State) :
    visitDefinitions context scope ds s
      = (ds.map (Node.definition ·, scope)).foldl (fun s t => visit context t s) s := by
  induction ds generalizing s with
  | nil => rfl
  | cons d ds ih => exact ih _

theorem isRecursion_visit : IsRecursion (visitStep context) (·.1) (visit context) := by
  intro task s
  match task with
  | (.definition ⟨_, _, _, none, _⟩, _) => exact ⟨nil_sublist _, rfl⟩
  | (.definition ⟨mark, _, params, some _, _⟩, _) =>
    simp only [visit, visitDefinition, visitStep]
    cases mark.invalid with
    | true => exact ⟨nil_sublist _, rfl⟩
    | false => cases params.isEmpty <;> exact ⟨Sublist.refl _, rfl⟩
  | (.box (.block mark body locals), scope) =>
    exact ⟨by simp [visitStep, Node.children, Function.comp_def],
      visitDefinitions_eq_foldl context s.tree.size locals _⟩
  | (.box (.call mark name args), scope) =>
    simp only [visit, visitBox, visitStep]
    split
    · rename_i hiteration
      unfold isIteration at hiteration
      split at hiteration
      · exact ⟨(Sublist.refl _).cons _, rfl⟩
      · cases hiteration
    · exact ⟨by simp [Node.children, Function.comp_def], visitBoxes_eq_foldl context scope args _⟩
  | (.box (.compose ..), _) => exact ⟨Sublist.refl _, rfl⟩
  | (.box (.ref ..), _) | (.box (.number ..), _) | (.box (.string ..), _) => exact ⟨nil_sublist _, rfl⟩
  | (.program _, _) | (.importing _, _) | (.declaration _, _) => exact ⟨nil_sublist _, rfl⟩

/-- A stack resolves the names of definitions as the recursion does. -/
theorem runStack_visitStep (scope : Nat) (ds : List Definition) (s : State) {fuel : Nat}
    (hfuel : (Definition.nodesAll ds).length ≤ fuel) :
    runStack (visitStep context) fuel (ds.map (Node.definition ·, scope)) s
      = some (visitDefinitions context scope ds s) := by
  rw [visitDefinitions_eq_foldl]
  refine runStack_eq (isRecursion_visit context) _ s ?_
  rw [Definition.nodesAll_eq] at hfuel
  rwa [map_map, flatMap_map]

end Resolver

/-! ## Controls -/

/-- Finds the control of one node inside groups and a definition, and leaves its parts to do; of a group only its
content. -/
def Resolution.controlStep (r : Resolution) : Node × List String × String → List Control →
    List Control × List (Node × List String × String)
  | (n, groups, owner), found =>
    let parts := if (n.group? r).isSome then n.children.tail else n.children
    (found ++ (n.control? r groups owner).toList,
      if n.entered then parts.map (·, groups ++ (n.group? r).toList, n.definitionName?.getD owner) else [])

/-- The label of a group holds no control. -/
theorem Node.controls_tail_of_group? {r : Resolution} {n : Node} {inner : String} (h : n.group? r = some inner)
    (groups : List String) (owner : String) :
    n.children.tail.flatMap (controls r groups owner) = n.children.flatMap (controls r groups owner) := by
  unfold group? Resolution.group? at h
  split at h
  · split at h
    · rfl
    · cases h
  · cases h

theorem Resolution.isRecursion_controls (r : Resolution) :
    IsRecursion r.controlStep (·.1) fun (n, groups, owner) found => found ++ n.controls r groups owner := by
  intro (n, groups, owner) found
  simp only [controlStep, foldl_append_eq_append, append_assoc, append_cancel_left_eq, ← flatMap_def]
  cases hentered : n.entered with
  | false =>
    rw [n.controls_of_not_entered r groups owner hentered]
    match n, hentered with
    | .definition _, _ => exact ⟨nil_sublist _, rfl⟩
  | true =>
    rw [n.controls_eq r groups owner hentered, if_pos rfl, map_map, flatMap_map]
    cases hgroup : n.group? r with
    | none => exact ⟨by simp [Function.comp_def], rfl⟩
    | some inner =>
      rw [← Node.controls_tail_of_group? hgroup]
      exact ⟨by simp [Function.comp_def, tail_sublist], rfl⟩

/-- A stack finds the controls of a box in the order of the recursion. -/
theorem Resolution.runStack_controlStep (r : Resolution) (b : Box) (groups : List String) (owner : String)
    {fuel : Nat} (hfuel : b.nodes.length ≤ fuel) :
    runStack r.controlStep fuel [(.box b, groups, owner)] [] = some (b.controls r groups owner) :=
  runStack_eq r.isRecursion_controls [(.box b, groups, owner)] [] (by simpa [Node.nodes] using hfuel)

end Patchbay
