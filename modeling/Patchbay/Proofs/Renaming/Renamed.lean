import Patchbay.Proofs.Renaming.Mentions
import Patchbay.Proofs.Sizing.Likeness

/-!
# Renaming what a scope binds

A renaming gives another name to what one scope binds under some name. It changes the binding mentions of that name in
the scope and the uses that belong to it. Nothing else changes if the new name is fresh: no use comes to belong to
another scope, so the mentions of the renamed program are those of the program with the names exchanged.
-/

open List

namespace Patchbay

/-- What the scope that the node `owner` opens binds as `old` is to be called `new`. -/
structure Renaming where
  owner : Nat
  old : String
  new : String
deriving Repr, DecidableEq

/-- The name that a mention has after a renaming, by its scope and its name. -/
def Renaming.apply (ρ : Renaming) (scope : Option Nat) (name : String) : String :=
  if scope = some ρ.owner ∧ name = ρ.old then ρ.new else name

/-- A mention after a renaming. -/
def Mention.rename (ρ : Renaming) (m : Mention) : Mention := { m with name := ρ.apply m.scope m.name }

/-- The variable of an iteration after a renaming. -/
def Box.renameVariable (ρ : Renaming) (opener : Nat) : Box → Box
  | .ref mark name => .ref mark (ρ.apply (some opener) name)
  | other => other

open Lexical in
mutual

/-- A box after a renaming, with the nodes that open the scopes around it. -/
def Box.rename (ρ : Renaming) (scopes : List Node) : Box → Box
  | .ref mark name => .ref mark (ρ.apply (scope? scopes name) name)
  | .number mark value text => .number mark value text
  | .string mark value => .string mark value
  | .compose mark op left right => .compose mark op (left.rename ρ scopes) (right.rename ρ scopes)
  | .block mark body locals =>
    .block mark (body.rename ρ (.box (.block mark body locals) :: scopes))
      (Definition.renameAll ρ mark.id (.box (.block mark body locals) :: scopes) locals)
  | .call mark name args =>
    .call mark (ρ.apply (scope? scopes name) name)
      (if iterates scopes name args then Box.renameIteration ρ (.box (.call mark name args)) scopes args
      else Box.renameAll ρ scopes args)

/-- Boxes after a renaming. -/
def Box.renameAll (ρ : Renaming) (scopes : List Node) : List Box → List Box
  | [] => []
  | b :: bs => b.rename ρ scopes :: Box.renameAll ρ scopes bs

/-- The arguments of an iteration after a renaming. -/
def Box.renameIteration (ρ : Renaming) (opener : Node) (scopes : List Node) : List Box → List Box
  | [binder, count, body] =>
    [binder.renameVariable ρ opener.mark.id, count.rename ρ scopes, body.rename ρ (opener :: scopes)]
  | args => args

/-- A definition after a renaming. It is bound in the scope that the node `opener` opens. -/
def Definition.rename (ρ : Renaming) (opener : Nat) (scopes : List Node) : Definition → Definition
  | ⟨mark, name, params, none, stop⟩ =>
    ⟨mark, ρ.apply (some opener) name, params.map (ρ.apply (some mark.id)), none, stop⟩
  | ⟨mark, name, params, some body, stop⟩ =>
    ⟨mark, ρ.apply (some opener) name, params.map (ρ.apply (some mark.id)),
      some (body.rename ρ (.definition ⟨mark, name, params, some body, stop⟩ :: scopes)), stop⟩

/-- Definitions after a renaming. -/
def Definition.renameAll (ρ : Renaming) (opener : Nat) (scopes : List Node) : List Definition → List Definition
  | [] => []
  | d :: ds => d.rename ρ opener scopes :: Definition.renameAll ρ opener scopes ds

end

/-- A program after a renaming. -/
def Program.rename (ρ : Renaming) (p : Program) : Program :=
  { p with definitions := Definition.renameAll ρ (Node.program p).mark.id [.program p] p.definitions }

variable {ρ : Renaming}

/-! ## Marks -/

theorem Definition.mark_rename (d : Definition) (opener : Nat) (scopes : List Node) :
    (d.rename ρ opener scopes).mark = d.mark := by
  obtain ⟨mark, name, params, body, stop⟩ := d
  cases body <;> rfl

theorem Definition.name_rename (d : Definition) (opener : Nat) (scopes : List Node) :
    (d.rename ρ opener scopes).name = ρ.apply (some opener) d.name := by
  obtain ⟨mark, name, params, body, stop⟩ := d
  cases body <;> rfl

theorem Definition.params_rename (d : Definition) (opener : Nat) (scopes : List Node) :
    (d.rename ρ opener scopes).params = d.params.map (ρ.apply (some d.id)) := by
  obtain ⟨mark, name, params, body, stop⟩ := d
  cases body <;> rfl

/-! ## Scopes -/

variable {opener : Nat} {mark : Mark} {name : String} {p : Program} {args : List Box} {scopes : List Node}
  {ds : List Definition}

/-- Different names stay different if the new name is neither of them. -/
theorem Renaming.eq_of_apply_eq {scope scope' : Option Nat} {name' : String} (hname : name ≠ ρ.new)
    (hname' : name' ≠ ρ.new) (h : ρ.apply scope name = ρ.apply scope' name') : name = name' := by
  unfold Renaming.apply at h
  split at h
  · rename_i hold
    split at h
    · rename_i hold'
      rw [hold.2, hold'.2]
    · exact absurd h.symm hname'
  · split at h
    · exact absurd h hname
    · exact h

/-- The second node opens the scope of the first after a renaming. -/
structure Node.Renames (ρ : Renaming) (n n' : Node) : Prop where
  id : n'.mark.id = n.mark.id
  names : n'.names = n.names.map (ρ.apply (some n.mark.id))
  fresh : ρ.new ∉ n.names

namespace Lexical

variable {scopes scopes' : List Node} {name : String}

theorem not_mem_names_of_renames {n n' : Node} (h : n.Renames ρ n') (hname : name ≠ ρ.new) (hnot : name ∉ n.names)
    (scope : Option Nat) : ρ.apply scope name ∉ n'.names := by
  rw [h.names, mem_map]
  rintro ⟨other, hother, heq⟩
  have hne : other ≠ ρ.new := fun hnew => h.fresh (hnew ▸ hother)
  exact hnot (Renaming.eq_of_apply_eq hne hname heq ▸ hother)

/-- No use is captured: the innermost scope that has a name is the same one after a renaming. -/
theorem binder?_renames {P : Node → Node → Prop} (hP : ∀ n n', P n n' → n.Renames ρ n') (h : Forall₂ P scopes scopes')
    (hname : name ≠ ρ.new) :
    Option.Rel P (binder? scopes name) (binder? scopes' (ρ.apply (scope? scopes name) name)) := by
  induction h with
  | nil => exact .none
  | @cons n n' rest rest' hn _ ih =>
    unfold scope? binder?
    rw [find?_cons, find?_cons]
    cases hbinds : n.names.contains name with
    | true =>
      have hmem : ρ.apply (some n.mark.id) name ∈ n'.names := by
        rw [(hP n n' hn).names]
        exact mem_map_of_mem (contains_iff_mem.mp hbinds)
      rw [Option.map_some, contains_iff_mem.mpr hmem]
      exact .some hn
    | false =>
      have hnot : name ∉ n.names := by
        rw [← contains_iff_mem, hbinds]
        exact Bool.false_ne_true
      have hnot' := not_mem_names_of_renames (hP n n' hn) hname hnot
        ((rest.find? fun n => n.names.contains name).map (·.mark.id))
      rw [← contains_iff_mem, Bool.not_eq_true] at hnot'
      rw [hnot']
      exact ih

theorem apply_of_unbound (h : binder? scopes name = none) : ρ.apply (scope? scopes name) name = name := by
  rw [scope?, h]
  exact if_neg (by simp)

theorem scope?_renames (h : Forall₂ (Node.Renames ρ) scopes scopes') (hname : name ≠ ρ.new) :
    scope? scopes' (ρ.apply (scope? scopes name) name) = scope? scopes name := by
  have hbinder := binder?_renames (fun _ _ hn => hn) h hname
  unfold scope? at hbinder ⊢
  revert hbinder
  generalize binder? scopes' _ = o'
  generalize binder? scopes name = o
  intro hbinder
  cases hbinder with
  | none => rfl
  | some hn => exact congrArg some hn.id

theorem areIterated_renameAll (args : List Box) : areIterated (Box.renameAll ρ scopes args) = areIterated args := by
  rcases args with _ | ⟨b, rest⟩
  · rfl
  · cases b with
    | ref mark name => rcases rest with _ | ⟨_, _ | ⟨_, _ | _⟩⟩ <;> rfl
    | number | string | call | compose | block => rfl

theorem areIterated_renameIteration (opener : Node) (args : List Box) :
    areIterated (Box.renameIteration ρ opener scopes args) = areIterated args := by
  rcases args with _ | ⟨b, _ | ⟨_, _ | ⟨_, _ | _⟩⟩⟩
  case cons.cons.cons.nil => cases b <;> rfl
  all_goals rfl

/-- The same calls are iterations after a renaming. -/
theorem iterates_renames (h : Forall₂ (Node.Renames ρ) scopes scopes') (hname : name ≠ ρ.new) {args' : List Box}
    (hargs : areIterated args' = areIterated args) :
    iterates scopes' (ρ.apply (scope? scopes name) name) args' = iterates scopes name args := by
  have hbinder := binder?_renames (fun _ _ hn => hn) h hname
  unfold iterates
  rw [hargs]
  cases hfound : binder? scopes name with
  | none =>
    rw [hfound] at hbinder
    rw [eq_none_of_rel_none hbinder, apply_of_unbound hfound]
  | some n =>
    rw [hfound] at hbinder
    obtain ⟨n', hfound', -⟩ := exists_of_rel_some hbinder
    simp only [hfound', Option.isNone_some, Bool.and_false]

end Lexical

/-! ## Nodes that open scopes -/

theorem Definition.names_renameAll (ds : List Definition) (opener : Nat) (scopes : List Node) :
    (Definition.renameAll ρ opener scopes ds).map (·.name) = (ds.map (·.name)).map (ρ.apply (some opener)) := by
  induction ds with
  | nil => rfl
  | cons d rest ih =>
    rw [Definition.renameAll, map_cons, map_cons, map_cons, Definition.name_rename, ih]

theorem Node.names_program (p : Program) : (Node.program p).names = p.definitions.map (·.name) := by
  simp [Node.names, Node.symbols, Function.comp_def, Resolver.definitionSymbol]

theorem Node.names_definition (d : Definition) : (Node.definition d).names = d.params := by
  simp [Node.names, Node.symbols, Function.comp_def, Resolver.variableSymbol]

theorem Node.names_block (mark : Mark) (body : Box) (locals : List Definition) :
    (Node.box (.block mark body locals)).names = locals.map (·.name) := by
  simp [Node.names, Node.symbols, Function.comp_def, Resolver.definitionSymbol]

/-- The names of the definitions of a scope are mentioned. -/
theorem Definition.exists_mention_of_name (h : name ∈ ds.map (·.name)) (opener : Nat) (scopes : List Node) :
    ∃ m ∈ Definition.mentionsAll opener scopes ds, m.name = name := by
  induction ds with
  | nil => cases h
  | cons d rest ih =>
    rw [Definition.mentionsAll]
    rcases mem_cons.mp h with rfl | h
    · refine ⟨⟨d.id, d.name, some opener, true⟩, mem_append_left _ ?_, rfl⟩
      obtain ⟨mark, name, params, body, stop⟩ := d
      cases body <;> exact mem_cons_self
    · obtain ⟨m, hm, hname⟩ := ih h
      exact ⟨m, mem_append_right _ hm, hname⟩

/-- A name is fresh for mentions if none of them has it. -/
def Renaming.Fresh (ρ : Renaming) (mentions : List Mention) : Prop := ∀ m ∈ mentions, m.name ≠ ρ.new

section

variable {m : Mention} {mentions mentions' : List Mention}

theorem Renaming.Fresh.left (h : ρ.Fresh (mentions ++ mentions')) : ρ.Fresh mentions :=
  (forall_mem_append.mp h).1

theorem Renaming.Fresh.right (h : ρ.Fresh (mentions ++ mentions')) : ρ.Fresh mentions' :=
  (forall_mem_append.mp h).2

theorem Renaming.Fresh.tail (h : ρ.Fresh (m :: mentions)) : ρ.Fresh mentions := (forall_mem_cons.mp h).2

end

theorem Renaming.Fresh.not_mem_names (h : ρ.Fresh (Definition.mentionsAll opener scopes ds)) :
    ρ.new ∉ ds.map (·.name) := by
  intro hmem
  obtain ⟨m, hm, hname⟩ := Definition.exists_mention_of_name hmem opener scopes
  exact h m hm hname

theorem Node.renames_program (h : ρ.Fresh p.mentions) : (Node.program p).Renames ρ (.program (p.rename ρ)) := by
  refine ⟨rfl, ?_, ?_⟩
  · rw [Node.names_program, Node.names_program, Program.rename, Definition.names_renameAll]
  · rw [Node.names_program]
    exact h.not_mem_names

theorem Node.renames_block (body body' : Box) {locals : List Definition}
    (h : ρ.Fresh (Definition.mentionsAll mark.id scopes locals)) :
    (Node.box (.block mark body locals)).Renames ρ
      (.box (.block mark body' (Definition.renameAll ρ mark.id scopes locals))) := by
  refine ⟨rfl, ?_, ?_⟩
  · rw [Node.names_block, Node.names_block, Definition.names_renameAll]
    rfl
  · rw [Node.names_block]
    exact h.not_mem_names

theorem Node.renames_definition {d : Definition} (h : ρ.Fresh (d.mentions opener scopes)) :
    (Node.definition d).Renames ρ (.definition (d.rename ρ opener scopes)) := by
  refine ⟨congrArg Mark.id (d.mark_rename opener scopes), ?_, ?_⟩
  · rw [Node.names_definition, Node.names_definition, Definition.params_rename]
    rfl
  · rw [Node.names_definition]
    intro hmem
    refine h ⟨d.id, ρ.new, some d.id, true⟩ ?_ rfl
    obtain ⟨mark, name, params, body, stop⟩ := d
    cases body with
    | none => exact mem_cons_of_mem _ (mem_map.mpr ⟨ρ.new, hmem, rfl⟩)
    | some body => exact mem_cons_of_mem _ (mem_append_left _ (mem_map.mpr ⟨ρ.new, hmem, rfl⟩))

theorem Node.renames_iteration (name' : String) (hargs : Lexical.areIterated args)
    (h : ρ.Fresh (Box.mentionsIteration (.box (.call mark name args)) scopes args)) :
    (Node.box (.call mark name args)).Renames ρ
      (.box (.call mark name' (Box.renameIteration ρ (.box (.call mark name args)) scopes args))) := by
  unfold Lexical.areIterated at hargs
  split at hargs
  · rename_i variableMark variableName count body
    refine ⟨rfl, rfl, ?_⟩
    intro hmem
    obtain hnew : ρ.new = variableName := mem_singleton.mp hmem
    exact h _ mem_cons_self hnew.symm
  · simp at hargs

end Patchbay
