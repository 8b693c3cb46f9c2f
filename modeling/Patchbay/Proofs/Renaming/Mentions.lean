import Patchbay.Proofs.Sizing.References

/-!
# Where names are bound

A name is mentioned where it is bound, as that of a definition, of a parameter or of the variable of an iteration, and
where it is used, as a name or a call. Every mention belongs to the scope that binds its name: a binding one to the
scope in which it binds it, and a use to the innermost scope around it that has the name. Scopes are told by the nodes
that open them, which are the program, definitions, blocks and iterations. A use that no scope has belongs to none; it
is built in, from a library, or stands for nothing.

`Program.resolved_mentions` says that the resolution of a program follows its mentions: a use is bound to the symbol
that its scope has for the name.
-/

open List

namespace Patchbay

open Lexical

open Resolver (definitionSymbol variableSymbol builtinBindings)

/-! ## Scopes -/

/-- The symbols that a node binds in the scope that it opens. -/
def Node.symbols : Node → List Symbol
  | .program p => p.definitions.map definitionSymbol
  | .definition d => d.params.map fun param => variableSymbol param d.position
  | .box (.block _ _ locals) => locals.map definitionSymbol
  | .box (.call _ _ (.ref mark name :: _)) => [variableSymbol name mark.position]
  | _ => []

/-- The names that a node binds in the scope that it opens. -/
def Node.names (n : Node) : List String := n.symbols.map (·.name)

namespace Lexical

/-- The innermost of some nodes, given from the inside out, whose scope has a name. -/
def binder? (scopes : List Node) (name : String) : Option Node := scopes.find? fun n => n.names.contains name

/-- The number of the innermost node whose scope has a name. -/
def scope? (scopes : List Node) (name : String) : Option Nat := (binder? scopes name).map (·.mark.id)

/-- Whether arguments are a name, a count and a body. -/
def areIterated : List Box → Bool
  | [.ref _ _, _, _] => true
  | _ => false

/-- Whether a call is an iteration: an iteration form that no scope has, with a name, a count and a body. -/
def iterates (scopes : List Node) (name : String) (args : List Box) : Bool :=
  areIterated args && (iterations.contains name && (binder? scopes name).isNone)

end Lexical

/-! ## Mentions -/

/-- A name at a node, the node that opens the scope which binds it, and whether it is bound here or used. -/
structure Mention where
  node : Nat
  name : String
  scope : Option Nat
  binding : Bool
deriving Repr, DecidableEq

open Lexical in
mutual

/-- The mentions in a box, with the nodes that open the scopes around it. -/
def Box.mentions (scopes : List Node) : Box → List Mention
  | .ref mark name => [⟨mark.id, name, scope? scopes name, false⟩]
  | .number _ _ _ => []
  | .string _ _ => []
  | .compose _ _ left right => left.mentions scopes ++ right.mentions scopes
  | .block mark body locals =>
    body.mentions (.box (.block mark body locals) :: scopes)
      ++ Definition.mentionsAll mark.id (.box (.block mark body locals) :: scopes) locals
  | .call mark name args =>
    ⟨mark.id, name, scope? scopes name, false⟩ ::
      if iterates scopes name args then Box.mentionsIteration (.box (.call mark name args)) scopes args
      else Box.mentionsAll scopes args

/-- The mentions in boxes. -/
def Box.mentionsAll (scopes : List Node) : List Box → List Mention
  | [] => []
  | b :: bs => b.mentions scopes ++ Box.mentionsAll scopes bs

/-- The mentions in the arguments of an iteration. Its variable is in scope in its body. -/
def Box.mentionsIteration (opener : Node) (scopes : List Node) : List Box → List Mention
  | [binder, count, body] =>
    opener.names.map (⟨binder.id, ·, some opener.mark.id, true⟩)
      ++ (count.mentions scopes ++ body.mentions (opener :: scopes))
  | _ => []

/-- The mentions in a definition, which is bound in the scope that the node `opener` opens. -/
def Definition.mentions (opener : Nat) (scopes : List Node) : Definition → List Mention
  | ⟨mark, name, params, none, _⟩ =>
    ⟨mark.id, name, some opener, true⟩ :: params.map (⟨mark.id, ·, some mark.id, true⟩)
  | ⟨mark, name, params, some body, stop⟩ =>
    ⟨mark.id, name, some opener, true⟩ :: (params.map (⟨mark.id, ·, some mark.id, true⟩)
      ++ body.mentions (.definition ⟨mark, name, params, some body, stop⟩ :: scopes))

/-- The mentions in definitions. -/
def Definition.mentionsAll (opener : Nat) (scopes : List Node) : List Definition → List Mention
  | [] => []
  | d :: ds => d.mentions opener scopes ++ Definition.mentionsAll opener scopes ds

end

/-- The mentions in a program. -/
def Program.mentions (p : Program) : List Mention :=
  Definition.mentionsAll (Node.program p).mark.id [.program p] p.definitions

/-! ## Scopes and environments -/

variable {n : Node} {m : Mention} {os : List Occurrence}

namespace Lexical

/-- The environment inside the scopes that nodes open. -/
def scopesEnv (primitives : Primitives) (scopes : List Node) : Env :=
  scopes.map (fun n => Frame.ofSymbols n.symbols) ++ [(builtinBindings primitives).get?]

theorem ofSymbols_eq_none_iff {symbols : List Symbol} {name : String} :
    Frame.ofSymbols symbols name = none ↔ name ∉ symbols.map (·.name) := by
  simp [Frame.ofSymbols, find?_eq_none]

variable (primitives : Primitives) {scopes : List Node} {name : String}

theorem lookup_scopesEnv_cons (n : Node) :
    (scopesEnv primitives (n :: scopes)).lookup name
      = (Frame.ofSymbols n.symbols name).or ((scopesEnv primitives scopes).lookup name) := by
  unfold scopesEnv Env.lookup
  rw [map_cons, cons_append, findSome?_cons]
  cases Frame.ofSymbols n.symbols name <;> rfl

/-- A name is looked up in the innermost scope that has it. -/
theorem lookup_of_binder? (h : binder? scopes name = some n) :
    (scopesEnv primitives scopes).lookup name = Frame.ofSymbols n.symbols name ∧ name ∈ n.names := by
  induction scopes with
  | nil => simp [binder?] at h
  | cons m rest ih =>
    rw [lookup_scopesEnv_cons]
    unfold binder? at h
    rw [find?_cons] at h
    split at h
    · rename_i hbinds
      obtain rfl := Option.some.inj h
      have hmem : name ∈ m.names := contains_iff_mem.mp hbinds
      refine ⟨?_, hmem⟩
      cases hsymbol : Frame.ofSymbols m.symbols name with
      | none => exact absurd hmem (ofSymbols_eq_none_iff.mp hsymbol)
      | some symbol => rfl
    · rename_i hbinds
      have hnone : Frame.ofSymbols m.symbols name = none := by
        rw [ofSymbols_eq_none_iff, ← contains_iff_mem]
        exact Bool.eq_false_iff.mp hbinds
      rw [hnone, Option.none_or]
      exact ih h

/-- A name that no scope has is looked up among the built-in ones. -/
theorem lookup_of_binder?_eq_none (h : binder? scopes name = none) :
    (scopesEnv primitives scopes).lookup name = (builtinBindings primitives).get? name := by
  induction scopes with
  | nil =>
    unfold scopesEnv Env.lookup
    rw [map_nil, nil_append, findSome?_cons]
    cases (builtinBindings primitives).get? name <;> rfl
  | cons m rest ih =>
    unfold binder? at h
    rw [find?_eq_none] at h
    have hnone : Frame.ofSymbols m.symbols name = none := by
      rw [ofSymbols_eq_none_iff, ← contains_iff_mem]
      exact h m mem_cons_self
    rw [lookup_scopesEnv_cons, hnone, Option.none_or]
    exact ih (find?_eq_none.mpr fun n hn => h n (mem_cons_of_mem _ hn))

/-- Symbols that scopes bind are definitions, parameters and variables, and none is built in. -/
theorem kind_of_mem_symbols {symbol : Symbol} (h : symbol ∈ n.symbols) :
    symbol.kind = .userDefined ∨ symbol.kind = .parameter := by
  unfold Node.symbols at h
  split at h
  · obtain ⟨d, -, rfl⟩ := mem_map.mp h
    exact .inl rfl
  · obtain ⟨param, -, rfl⟩ := mem_map.mp h
    exact .inr rfl
  · obtain ⟨d, -, rfl⟩ := mem_map.mp h
    exact .inl rfl
  · rw [mem_singleton.mp h]
    exact .inr rfl
  · cases h

/-- Iteration forms are built in. -/
theorem kind_of_iterations (h : iterations.contains name) :
    ((builtinBindings primitives).get? name).any (·.kind == .primitive) := by
  have hmem : name = "par" ∨ name = "seq" ∨ name = "sum" ∨ name = "prod" := by simpa [iterations] using h
  unfold builtinBindings iterations
  simp only [foldl_cons, foldl_nil, Table.get?_insert]
  rcases hmem with rfl | rfl | rfl | rfl <;> rfl

/-- The environment and the scopes agree on which calls are iterations. -/
theorem isIteration_scopesEnv (args : List Box) :
    isIteration (scopesEnv primitives scopes) name args = iterates scopes name args := by
  have hany : (iterations.contains name && ((scopesEnv primitives scopes).lookup name).any
      fun s => s.kind == .primitive)
      = (iterations.contains name && (binder? scopes name).isNone) := by
    cases hform : iterations.contains name with
    | false => rfl
    | true =>
      cases hbinder : binder? scopes name with
      | none => rw [lookup_of_binder?_eq_none primitives hbinder, kind_of_iterations primitives hform]; rfl
      | some n =>
        obtain ⟨hlookup, -⟩ := lookup_of_binder? primitives hbinder
        rw [hlookup]
        cases hsymbol : Frame.ofSymbols n.symbols name with
        | none => rfl
        | some symbol =>
          rcases kind_of_mem_symbols (mem_of_find?_eq_some hsymbol) with hkind | hkind
          · simp [hkind]
          · simp [hkind]
  unfold iterates
  fun_cases areIterated args with
  | case1 => exact hany
  | case2 _ hshape =>
    unfold isIteration
    split
    · exact (hshape _ _ _ _ rfl).elim
    · rfl

/-! ## Uses are occurrences -/

/-- The uses among some mentions are among the occurrences: the same name at the same node, and the scope of the mention
is the innermost that has the name. All scopes around a use are opened by the given nodes. -/
def UsesAmong (primitives : Primitives) (nodes : List Node) (os : List Occurrence) (ms : List Mention) : Prop :=
  ∀ m ∈ ms, m.binding = false → ∃ o ∈ os, ∃ scopes, scopes ⊆ nodes ∧ o.env = scopesEnv primitives scopes
    ∧ o.mark.id = m.node ∧ o.name = m.name ∧ m.scope = scope? scopes m.name

variable {nodes : List Node}

namespace UsesAmong

variable {primitives} {ms ms' : List Mention} {os' : List Occurrence}

theorem nil : UsesAmong primitives nodes os [] := fun _ hm => absurd hm not_mem_nil

theorem append (h : UsesAmong primitives nodes os ms) (h' : UsesAmong primitives nodes os' ms') :
    UsesAmong primitives nodes (os ++ os') (ms ++ ms') := by
  intro m hm huse
  rcases mem_append.mp hm with hm | hm
  · obtain ⟨o, ho, hrest⟩ := h m hm huse
    exact ⟨o, mem_append_left _ ho, hrest⟩
  · obtain ⟨o, ho, hrest⟩ := h' m hm huse
    exact ⟨o, mem_append_right _ ho, hrest⟩

theorem use (h : UsesAmong primitives nodes os ms) (hscopes : scopes ⊆ nodes) (mark : Mark) (name : String) :
    UsesAmong primitives nodes (⟨mark, name, scopesEnv primitives scopes⟩ :: os)
      (⟨mark.id, name, scope? scopes name, false⟩ :: ms) := by
  have hone : UsesAmong primitives nodes [⟨mark, name, scopesEnv primitives scopes⟩]
      [⟨mark.id, name, scope? scopes name, false⟩] := by
    intro m hm _
    rw [mem_singleton.mp hm]
    exact ⟨_, mem_singleton_self _, scopes, hscopes, rfl, rfl, rfl, rfl⟩
  exact hone.append h

/-- A mention that binds a name is no use. -/
theorem bindings (h : UsesAmong primitives nodes os ms) (names : List String) (node scope : Nat) :
    UsesAmong primitives nodes os (names.map (⟨node, ·, some scope, true⟩) ++ ms) := by
  intro m hm huse
  rcases mem_append.mp hm with hm | hm
  · obtain ⟨name, -, rfl⟩ := mem_map.mp hm
    simp at huse
  · exact h m hm huse

end UsesAmong

theorem frame_iteration (mark : Mark) (name : String) (binder : Box) (rest : List Box) :
    Frame.ofSymbols (Node.box (.call mark name (binder :: rest))).symbols = variableFrame binder := by
  cases binder <;> rfl

mutual

theorem usesAmong_box (hvalid : ∀ n ∈ nodes, n.mark.invalid = false) (b : Box) (hb : b.nodes ⊆ nodes)
    (scopes : List Node) (hscopes : scopes ⊆ nodes) :
    UsesAmong primitives nodes (occurrences (scopesEnv primitives scopes) b) (b.mentions scopes) := by
  cases b with
  | ref mark name => exact .use .nil hscopes mark name
  | number | string => exact .nil
  | compose mark op left right =>
    obtain ⟨hleft, hright⟩ := append_subset.mp (cons_subset.mp hb).2
    exact (usesAmong_box hvalid left hleft scopes hscopes).append (usesAmong_box hvalid right hright scopes hscopes)
  | block mark body locals =>
    obtain ⟨hself, hparts⟩ := cons_subset.mp hb
    obtain ⟨hbody, hlocals⟩ := append_subset.mp hparts
    have hinner := cons_subset.mpr ⟨hself, hscopes⟩
    exact (usesAmong_box hvalid body hbody _ hinner).append
      (usesAmong_definitions hvalid locals hlocals mark.id _ hinner)
  | call mark name args =>
    obtain ⟨hself, hargs⟩ := cons_subset.mp hb
    rw [occurrences, Box.mentions, isIteration_scopesEnv]
    refine .use ?_ hscopes mark name
    split
    · exact usesAmong_iteration hvalid args hargs mark name args rfl hself scopes hscopes
    · exact usesAmong_boxes hvalid args hargs scopes hscopes

theorem usesAmong_boxes (hvalid : ∀ n ∈ nodes, n.mark.invalid = false) (bs : List Box)
    (hbs : Box.nodesAll bs ⊆ nodes) (scopes : List Node) (hscopes : scopes ⊆ nodes) :
    UsesAmong primitives nodes (occurrencesAll (scopesEnv primitives scopes) bs) (Box.mentionsAll scopes bs) := by
  cases bs with
  | nil => exact .nil
  | cons b rest =>
    obtain ⟨hfirst, hrest⟩ := append_subset.mp hbs
    exact (usesAmong_box hvalid b hfirst scopes hscopes).append (usesAmong_boxes hvalid rest hrest scopes hscopes)

theorem usesAmong_iteration (hvalid : ∀ n ∈ nodes, n.mark.invalid = false) (args : List Box)
    (hargs : Box.nodesAll args ⊆ nodes) (mark : Mark) (name : String) (whole : List Box) (hwhole : whole = args)
    (hself : Node.box (.call mark name whole) ∈ nodes) (scopes : List Node) (hscopes : scopes ⊆ nodes) :
    UsesAmong primitives nodes (iterationOccurrences (scopesEnv primitives scopes) args)
      (Box.mentionsIteration (.box (.call mark name whole)) scopes args) := by
  match args with
  | [] | [_] | [_, _] | _ :: _ :: _ :: _ :: _ => exact .nil
  | [binder, count, body] =>
    obtain ⟨hcount, hlast⟩ := append_subset.mp (append_subset.mp hargs).2
    -- The variable is in scope in the body only.
    have hbody := usesAmong_box hvalid body (append_subset.mp hlast).1 (.box (.call mark name whole) :: scopes)
      (cons_subset.mpr ⟨hself, hscopes⟩)
    have henv : scopesEnv primitives (.box (.call mark name whole) :: scopes)
        = variableFrame binder :: scopesEnv primitives scopes := by
      rw [hwhole]
      exact congrArg (· :: _) (frame_iteration mark name binder [count, body])
    rw [henv] at hbody
    exact ((usesAmong_box hvalid count hcount scopes hscopes).append hbody).bindings _ _ _

theorem usesAmong_definition (hvalid : ∀ n ∈ nodes, n.mark.invalid = false) (d : Definition)
    (hd : d.nodes ⊆ nodes) (opener : Nat) (scopes : List Node) (hscopes : scopes ⊆ nodes) :
    UsesAmong primitives nodes (definitionOccurrences (scopesEnv primitives scopes) d) (d.mentions opener scopes) := by
  match d with
  | ⟨mark, name, params, none, stop⟩ =>
    rw [Definition.mentions, ← append_nil (params.map _)]
    exact (UsesAmong.nil.bindings params _ _).bindings [name] _ _
  | ⟨mark, name, params, some body, stop⟩ =>
    obtain ⟨hself, hbody⟩ := cons_subset.mp hd
    have hmark : mark.invalid = false := hvalid _ hself
    have hused := usesAmong_box hvalid body hbody _ (cons_subset.mpr ⟨hself, hscopes⟩)
    rw [definitionOccurrences, hmark]
    exact (hused.bindings params _ _).bindings [name] _ _

theorem usesAmong_definitions (hvalid : ∀ n ∈ nodes, n.mark.invalid = false) (ds : List Definition)
    (hds : Definition.nodesAll ds ⊆ nodes) (opener : Nat) (scopes : List Node) (hscopes : scopes ⊆ nodes) :
    UsesAmong primitives nodes (definitionsOccurrences (scopesEnv primitives scopes) ds)
      (Definition.mentionsAll opener scopes ds) := by
  cases ds with
  | nil => exact .nil
  | cons d rest =>
    obtain ⟨hfirst, hrest⟩ := append_subset.mp hds
    exact (usesAmong_definition hvalid d hfirst opener scopes hscopes).append
      (usesAmong_definitions hvalid rest hrest opener scopes hscopes)

end

end Lexical

/-! ## The resolution follows the mentions -/

/-- The resolution binds a use to the symbol that the scope of the use has for its name: the first one of this name that
the node binds which opens the scope. A use without a scope is bound to something from outside of the program, if at
all. -/
def Mention.Resolved (p : Program) (r : Resolution) (m : Mention) : Prop :=
  match m.scope with
  | some scope => ∃ n ∈ p.nodes, ∃ symbol, n.mark.id = scope ∧ n.symbols.find? (·.name == m.name) = some symbol
      ∧ r.symbol? m.node = some symbol
  | none => ∀ symbol, r.symbol? m.node = some symbol → Lexical.IsOuter symbol

/-- In a program without invalid nodes, and with different numbers for all of them, every use is bound as its scope
says. -/
theorem Program.resolved_mentions (primitives : Primitives) (available : Libraries) {p : Program}
    (hids : (p.nodes.map (·.mark.id)).Nodup) (hvalid : ∀ n ∈ p.nodes, n.mark.invalid = false) (hm : m ∈ p.mentions)
    (huse : m.binding = false) : m.Resolved p (p.resolve primitives available).1 := by
  have hsub : Definition.nodesAll p.definitions ⊆ p.nodes :=
    p.partsIn_nodes.nodes_definitions p.definitions fun d hd => p.mem_nodes_of_definition hd
  have hscope : [Node.program p] ⊆ p.nodes := cons_subset.mpr ⟨mem_cons_self, nil_subset _⟩
  obtain ⟨o, ho, scopes, hscopes, henv, hnode, hname, hscope⟩ :=
    usesAmong_definitions primitives hvalid p.definitions hsub _ _ hscope m hm huse
  have hsymbol := symbol?_of_mem primitives hids (serve_kept available p) ho
  rw [hnode, Lexical.Occurrence.meaning?, henv, hname] at hsymbol
  unfold Mention.Resolved
  rw [hscope, hsymbol, scope?]
  unfold meaning?
  cases hbinder : binder? scopes m.name with
  | some n =>
    obtain ⟨hlookup, hmem⟩ := lookup_of_binder? primitives hbinder
    have hn : n ∈ p.nodes := hscopes (mem_of_find?_eq_some hbinder)
    cases hfind : Lexical.Frame.ofSymbols n.symbols m.name with
    | none => exact absurd hmem (ofSymbols_eq_none_iff.mp hfind)
    | some symbol =>
      rw [hlookup, hfind]
      exact ⟨n, hn, symbol, rfl, hfind, rfl⟩
  | none =>
    rw [lookup_of_binder?_eq_none primitives hbinder]
    intro symbol hmeaning
    split at hmeaning
    · rename_i found hfound
      obtain rfl := Option.some.inj hmeaning
      exact plain_builtinBindings primitives m.name found hfound
    · exact isOuter_of_library hmeaning

end Patchbay
