import Patchbay.Proofs.Scope.LexicalScoping
import Patchbay.Proofs.Sizing.Ownership

/-!
# Where references lead

A name refers to a definition of the program or to a local one of a block around it: to what can be seen from the
definition in which it occurs. So the definitions that sized boxes refer to are sized themselves, and two references to
definitions with one number refer to the same definition.
-/

open List

namespace Patchbay.Lexical

open Resolver Sizing

variable {Q : Definition → Prop} {env : Env}

/-! ## Environments of definitions -/

/-- All definitions that an environment binds are bound as such and satisfy a condition. -/
def EnvIn (Q : Definition → Prop) (env : Env) : Prop :=
  ∀ frame ∈ env, ∀ name symbol d, frame name = some symbol → symbol.definition = some d →
    symbol.kind = .userDefined ∧ Q d

section

variable (h : EnvIn Q env)

include h

theorem EnvIn.mono {Q' : Definition → Prop} (hsub : ∀ d, Q d → Q' d) : EnvIn Q' env :=
  fun frame hframe name symbol d hsymbol hd => (h frame hframe name symbol d hsymbol hd).imp_right (hsub d)

theorem EnvIn.cons {frame : Frame} (hframe : ∀ name symbol d, frame name = some symbol → symbol.definition = some d →
      symbol.kind = .userDefined ∧ Q d) :
    EnvIn Q (frame :: env) := by
  intro f hf
  rcases mem_cons.mp hf with rfl | hf
  · exact hframe
  · exact h f hf

theorem EnvIn.definitionFrame {ds : List Definition} (hds : ∀ d ∈ ds, Q d) : EnvIn Q (definitionFrame ds :: env) := by
  refine h.cons ?_
  intro name symbol d hsymbol hd
  have hmem := mem_of_find?_eq_some hsymbol
  obtain ⟨e, he, rfl⟩ := mem_map.mp hmem
  obtain rfl : e = d := Option.some.inj hd
  exact ⟨rfl, hds e he⟩

/-- A variable stands for no definition. -/
theorem EnvIn.variables {symbols : List Symbol}
    (hsymbols : ∀ s ∈ symbols, s.definition = none) : EnvIn Q (Frame.ofSymbols symbols :: env) := by
  refine h.cons ?_
  intro name symbol d hsymbol hd
  have hnone := hsymbols symbol (mem_of_find?_eq_some hsymbol)
  rw [hnone] at hd
  simp at hd

theorem EnvIn.parameterFrame (params : List String) (site : Position) :
    EnvIn Q (parameterFrame params site :: env) := by
  refine h.variables ?_
  intro s hs
  obtain ⟨param, -, rfl⟩ := mem_map.mp hs
  rfl

theorem EnvIn.variableFrame (binder : Box) : EnvIn Q (variableFrame binder :: env) := by
  cases binder with
  | ref mark name =>
    refine h.variables ?_
    intro s hs
    rw [mem_singleton.mp hs]
    rfl
  | number | string | call | compose | block => exact h.variables (by simp)

end

/-- The symbol comes from outside of the program: it has no definition and no place in it. -/
def IsOuter (symbol : Symbol) : Prop := symbol.definition = none ∧ symbol.site = none

/-- A table of symbols from outside of the program. -/
def Plain (t : Table String Symbol) : Prop := ∀ name symbol, t.get? name = some symbol → IsOuter symbol

variable {b : Box} {n : Node} {name : String} {symbol : Symbol} {imports : Imports} {o : Occurrence}
  {t : Table String Symbol}

theorem Plain.insert (h : Plain t) (key : String) {value : Symbol} (hvalue : IsOuter value) :
    Plain (t.insert key value) := by
  intro name symbol hget
  rw [Table.get?_insert] at hget
  split at hget
  · obtain rfl := Option.some.inj hget
    exact hvalue
  · exact h name symbol hget

theorem Plain.foldl {α : Type} {entries : List α} {key : α → String} {value : α → Symbol}
    (hentries : ∀ e ∈ entries, IsOuter (value e)) (h : Plain t) :
    Plain (entries.foldl (fun t e => t.insert (key e) (value e)) t) := by
  induction entries generalizing t with
  | nil => exact h
  | cons e rest ih =>
    refine ih ?_ (h.insert (key e) (hentries e mem_cons_self))
    intro e' he'
    exact hentries e' (mem_cons_of_mem _ he')

/-- What is known without a program comes from outside of it. -/
theorem plain_builtinBindings (primitives : Primitives) : Plain (builtinBindings primitives) := by
  refine Plain.foldl (fun _ _ => ⟨rfl, rfl⟩) (Plain.foldl ?_ ?_)
  · intro e he
    obtain ⟨⟨key, p⟩, -, rfl⟩ := mem_map.mp he
    exact ⟨rfl, rfl⟩
  · intro name symbol hget
    simp at hget

theorem envIn_programEnv (primitives : Primitives) (p : Program) (h : ∀ d ∈ p.definitions, Q d) :
    EnvIn Q (programEnv primitives p) := by
  have hbuiltin : EnvIn Q [(builtinBindings primitives).get?] := by
    intro frame hframe name symbol d hsymbol hd
    rw [mem_singleton.mp hframe] at hsymbol
    rw [(plain_builtinBindings primitives name symbol hsymbol).1] at hd
    simp at hd
  exact hbuiltin.definitionFrame h

/-- Symbols of libraries come from outside of the program. -/
theorem isOuter_of_library (h : imports.symbol? name = some symbol) : IsOuter symbol := by
  unfold Imports.symbol? at h
  split at h
  · simp at h
  · split at h
    · rename_i found hfound
      obtain rfl := Option.some.inj h
      obtain ⟨library, -, hlibrary⟩ := exists_of_findSome?_eq_some hfound
      unfold librarySymbol? at hlibrary
      split at hlibrary
      · obtain rfl := Option.some.inj hlibrary
        exact ⟨rfl, rfl⟩
      · split at hlibrary
        · obtain rfl := Option.some.inj hlibrary
          exact ⟨rfl, rfl⟩
        · simp at hlibrary
    · split at h
      · obtain rfl := Option.some.inj h
        exact ⟨rfl, rfl⟩
      · simp at h

/-- What an occurrence refers to is bound in its environment. -/
theorem definition_of_meaning? (h : EnvIn Q o.env) {d : Definition} (hsymbol : o.meaning? imports = some symbol)
    (hd : symbol.definition = some d) : symbol.kind = .userDefined ∧ Q d := by
  unfold Occurrence.meaning? meaning? at hsymbol
  cases hlookup : o.env.lookup o.name with
  | some found =>
    rw [hlookup] at hsymbol
    obtain rfl := Option.some.inj hsymbol
    obtain ⟨frame, hframe, hfound⟩ := exists_of_findSome?_eq_some hlookup
    exact h frame hframe o.name found d hfound hd
  | none =>
    rw [hlookup] at hsymbol
    rw [(isOuter_of_library hsymbol).1] at hd
    simp at hd

/-! ## The definitions of a program -/

/-- The parts that are visited stand in scopes of what is bound around them and of definitions that are parts too. -/
theorem EnvIn.visited (h : EnvIn Q env) (hn : ∀ d, Node.definition d ∈ n.children → Q d) {v : Env × Node}
    (hv : v ∈ visited env n) : EnvIn Q v.1 := by
  cases n with
  | program | importing | declaration => cases hv
  | definition d =>
    obtain ⟨body, -, rfl⟩ := mem_map.mp hv
    exact h.parameterFrame d.params d.position
  | box b =>
    cases b with
    | ref | number | string => cases hv
    | compose mark op left right =>
      rcases mem_pair.mp hv with rfl | rfl
      · exact h
      · exact h
    | block mark body locals =>
      have hinner := h.definitionFrame fun d hd => hn d (mem_cons_of_mem _ (mem_map_of_mem hd))
      rcases mem_cons.mp hv with rfl | hv
      · exact hinner
      · obtain ⟨d, -, rfl⟩ := mem_map.mp hv
        exact hinner
    | call mark name args =>
      by_cases hiter : isIteration env name args
      · obtain ⟨variableMark, variableName, count, body, rfl⟩ := exists_of_isIteration hiter
        rw [visited_iteration hiter] at hv
        -- The count is outside the scope of the variable.
        rcases mem_pair.mp hv with rfl | rfl
        · exact h
        · exact h.variableFrame _
      · rw [visited_call hiter] at hv
        obtain ⟨b, -, rfl⟩ := mem_map.mp hv
        exact h

/-- The names that are used in a node. -/
def uses (env : Env) (n : Node) : List Occurrence := (nodeEvents env n).filterMap Event.use?

theorem mem_uses : o ∈ uses env n ↔ .use o ∈ ownEvents env n ∨ ∃ v ∈ visited env n, o ∈ uses v.1 v.2 := by
  have huse {es : List Event} : o ∈ es.filterMap Event.use? ↔ .use o ∈ es := by
    rw [mem_filterMap]
    constructor
    · rintro ⟨e, he, ho⟩
      cases e with
      | use o' => exact Option.some.inj ho ▸ he
      | again f => simp [Event.use?] at ho
    · intro h
      exact ⟨_, h, rfl⟩
  unfold uses
  rw [huse, nodeEvents_eq, mem_append, mem_flatMap]
  simp only [huse]

theorem definitionOccurrences_eq_uses (d : Definition) : definitionOccurrences env d = uses env (.definition d) :=
  (lists_definitionEvents d env).uses.symm

theorem env_of_mem_ownEvents (h : .use o ∈ ownEvents env n) : o.env = env := by
  have hentries (entries : List (Symbol × Position)) : .use o ∉ entryEvents entries := by simp [entryEvents]
  cases n with
  | program | importing | declaration => cases h
  | definition d =>
    obtain ⟨-, -, h⟩ := mem_flatMap.mp h
    exact absurd h (hentries _)
  | box b =>
    cases b with
    | number | string | compose => cases h
    | ref | call => rw [Event.use.inj (mem_singleton.mp h)]
    | block => exact absurd h (hentries _)

/-- The environments in a node bind what is bound around it and the definitions inside it. -/
theorem envIn_uses (n : Node) (env : Env) (henv : EnvIn Q env) (hn : ∀ d, Node.definition d ∈ n.nodes → Q d) :
    ∀ o ∈ uses env n, EnvIn Q o.env := by
  induction n using Node.induct generalizing env with
  | h n ih =>
    intro o ho
    rw [n.nodes_eq] at hn
    rcases mem_uses.mp ho with hown | ⟨v, hv, ho⟩
    · rw [env_of_mem_ownEvents hown]
      exact henv
    · have hchild := (sublist_visited env n).subset (mem_map_of_mem hv)
      have hbelow : ∀ m ∈ n.children, ∀ d, Node.definition d ∈ m.nodes → Q d :=
        fun m hm d hd => hn d (mem_cons_of_mem _ (mem_flatMap.mpr ⟨m, hm, hd⟩))
      exact ih v.2 hchild v.1 (henv.visited (fun d hd => hbelow _ hd d d.mem_nodes) hv) (hbelow v.2 hchild) o ho

/-! ## The definitions that are sized -/

variable {c : Sizing.Context} {p : Program} {imports : Imports}

/-- The names and calls among boxes occur in environments of definitions with a condition. -/
def Covered (Q : Definition → Prop) (os : List Occurrence) (boxes : List Box) : Prop :=
  ∀ x ∈ boxes, ∀ id, x.nameId? = some id → ∃ o ∈ os, o.mark.id = id ∧ EnvIn Q o.env

theorem Covered.mono {os os' : List Occurrence} {boxes : List Box} (h : Covered Q os boxes) (hsub : os ⊆ os') :
    Covered Q os' boxes := by
  intro x hx id hid
  obtain ⟨o, ho, hmark, henv⟩ := h x hx id hid
  exact ⟨o, hsub ho, hmark, henv⟩

/-- A call that is an iteration for its scope is sized as one. -/
theorem isSome_iterationParts? {mark : Mark} {args : List Box} {env : Env}
    (hsymbol : c.resolution.symbol? mark.id = meaning? imports env name) (h : isIteration env name args) :
    (iterationParts? c mark.id name args).isSome := by
  unfold isIteration at h
  split at h
  · rw [Bool.and_eq_true] at h
    obtain ⟨hname, hkind⟩ := h
    cases hlookup : env.lookup name with
    | none =>
      rw [hlookup] at hkind
      simp at hkind
    | some symbol =>
      have hmeaning : meaning? imports env name = some symbol := by
        unfold meaning?
        rw [hlookup]
      rw [hlookup] at hkind
      have hkind' : symbol.kind = .primitive := by simpa using hkind
      have hname' : name ∈ iterations := by simpa using hname
      unfold iterationParts?
      rw [hsymbol, hmeaning]
      simp [hname', hkind']
  · exact absurd h Bool.false_ne_true

/-- Operands are visited, in scopes of what is bound around them. -/
theorem exists_visited_operand {x : Box} (hx : x ∈ operands c b) (henv : EnvIn Q env)
    (hinner : EnvIn Q (definitionFrame (localsOf b) :: env))
    (hos : ∀ o ∈ uses env (.box b), c.resolution.symbol? o.mark.id = o.meaning? imports) :
    ∃ v ∈ visited env (.box b), v.2 = .box x ∧ EnvIn Q v.1 := by
  cases b with
  | ref | number | string => cases hx
  | compose mark op left right =>
    rcases mem_pair.mp hx with rfl | rfl
    · exact ⟨_, mem_cons_self, rfl, henv⟩
    · exact ⟨_, mem_cons_of_mem _ mem_cons_self, rfl, henv⟩
  | block mark body locals =>
    obtain rfl := mem_singleton.mp hx
    exact ⟨_, mem_cons_self, rfl, hinner⟩
  | call mark name args =>
    rw [operands] at hx
    by_cases hiter : isIteration env name args
    · -- An iteration for its scope is sized as one, so the operand is the body.
      have hparts := isSome_iterationParts? (hos ⟨mark, name, env⟩ (mem_uses.mpr (.inl mem_cons_self))) hiter
      obtain ⟨⟨count, body⟩, hparts⟩ := Option.isSome_iff_exists.mp hparts
      obtain ⟨binder, rfl⟩ := exists_of_iterationParts? hparts
      rw [hparts] at hx
      obtain rfl := mem_singleton.mp hx
      rw [visited_iteration hiter]
      exact ⟨_, mem_cons_of_mem _ mem_cons_self, rfl, henv.variableFrame binder⟩
    · have hargs : x ∈ args := by
        split at hx
        · rename_i hparts
          obtain ⟨binder, rfl⟩ := exists_of_iterationParts? hparts
          simp [mem_singleton.mp hx]
        · exact hx
      rw [visited_call hiter]
      exact ⟨_, mem_map_of_mem hargs, rfl, henv⟩

theorem exists_use_of_nameId? (env : Env) {id : Nat} (h : b.nameId? = some id) :
    ∃ o ∈ uses env (.box b), o.mark.id = id ∧ o.env = env := by
  cases b with
  | number | string | compose | block => simp [Box.nameId?] at h
  | ref | call => exact ⟨_, mem_uses.mpr (.inl mem_cons_self), Option.some.inj h, rfl⟩

/-- The boxes sized with a box of a definition occur in environments of what can be seen from the definition, and those
of a definition sized with it in environments of what can be seen from that one. -/
theorem covered_sized :
    (∀ b : Box, ∀ d ∈ sizedDefinitions c p, ∀ env, EnvIn (Visible c p d) env → boxesIn c b ⊆ bodyBoxes c d →
      (∀ o ∈ uses env (.box b), c.resolution.symbol? o.mark.id = o.meaning? imports) →
      Covered (Visible c p d) (uses env (.box b)) (boxesIn c b)
        ∧ ∀ e ∈ definitionsIn c b, Covered (Visible c p e) (uses env (.box b)) (bodyBoxes c e)) ∧
    ∀ d ∈ sizedDefinitions c p, ∀ env, EnvIn (Visible c p d) env →
      (∀ o ∈ uses env (.definition d), c.resolution.symbol? o.mark.id = o.meaning? imports) →
      ∀ e ∈ definitionsOf c d, Covered (Visible c p e) (uses env (.definition d)) (bodyBoxes c e) := by
  refine sized_induct c ?_ ?_
  · intro b hboxes hlocals d hd env henv hb hos
    have hsub : ∀ v ∈ visited env (.box b), uses v.1 v.2 ⊆ uses env (.box b) :=
      fun v hv o ho => mem_uses.mpr (.inr ⟨v, hv, ho⟩)
    rw [boxesIn_eq, cons_subset] at hb
    have howned : localsOf b ⊆ owned c d := fun e he => mem_flatMap.mpr ⟨b, hb.1, he⟩
    have hinner := henv.definitionFrame fun e he => Visible.own (howned he)
    have hoperand : ∀ x ∈ operands c b, Covered (Visible c p d) (uses env (.box b)) (boxesIn c x)
        ∧ ∀ e ∈ definitionsIn c x, Covered (Visible c p e) (uses env (.box b)) (bodyBoxes c e) := by
      intro x hx
      obtain ⟨⟨env', _⟩, hv, rfl, henv'⟩ := exists_visited_operand hx henv hinner hos
      have hx' : boxesIn c x ⊆ bodyBoxes c d := fun y hy => hb.2 (mem_flatMap.mpr ⟨x, hx, hy⟩)
      obtain ⟨hcovered, hcovered'⟩ := hboxes x hx d hd env' henv' hx' fun o ho => hos o (hsub _ hv ho)
      exact ⟨hcovered.mono (hsub _ hv), fun e he => (hcovered' e he).mono (hsub _ hv)⟩
    constructor
    · intro x hx id hid
      rw [boxesIn_eq] at hx
      rcases mem_cons.mp hx with rfl | hx
      · obtain ⟨o, ho, hmark, rfl⟩ := exists_use_of_nameId? env hid
        exact ⟨o, ho, hmark, henv⟩
      · obtain ⟨y, hy, hx⟩ := mem_flatMap.mp hx
        exact (hoperand y hy).1 x hx id hid
    · intro e he
      rw [definitionsIn_eq] at he
      rcases mem_append.mp he with he | he
      · obtain ⟨x, hx, he⟩ := mem_flatMap.mp he
        exact (hoperand x hx).2 e he
      · obtain ⟨l, hl, he⟩ := mem_flatMap.mp he
        have hv : (definitionFrame (localsOf b) :: env, Node.definition l) ∈ visited env (.box b) := by
          obtain ⟨mark, body, locals, rfl, hl⟩ := exists_of_mem_localsOf hl
          exact mem_cons_of_mem _ (mem_map_of_mem hl)
        -- From a local definition all that the block sees can be seen.
        exact (hlocals l hl (owned_subset hd (howned hl)) _ (hinner.mono fun x hx => .outer hd (howned hl) hx)
          (fun o ho => hos o (hsub _ hv ho)) e he).mono (hsub _ hv)
  · intro d hbody hd env henv hos e he
    cases hvalid : d.validBody? with
    | none =>
      rw [definitionsOf_of_none hvalid] at he
      rw [mem_singleton.mp he, bodyBoxes_of_none hvalid]
      exact fun _ hx => absurd hx not_mem_nil
    | some body =>
      have hboxes := bodyBoxes_of_some (c := c) hvalid
      have hv : (parameterFrame d.params d.position :: env, Node.box body) ∈ visited env (.definition d) := by
        simp [visited, hvalid]
      have hsub : uses _ (.box body) ⊆ uses env (.definition d) := fun o ho => mem_uses.mpr (.inr ⟨_, hv, ho⟩)
      obtain ⟨hcovered, hcovered'⟩ := hbody body hvalid d hd _ (henv.parameterFrame d.params d.position)
        (hboxes ▸ List.Subset.refl _) fun o ho => hos o (hsub ho)
      rw [definitionsOf_of_some hvalid] at he
      rcases mem_cons.mp he with rfl | he
      · rw [hboxes]
        exact hcovered.mono hsub
      · exact (hcovered' e he).mono hsub

/-- The boxes of the definitions that are sized with some occur in environments of what can be seen from them. -/
theorem covered_definitions (ds : List Definition) (hds : ∀ d ∈ ds, d ∈ sizedDefinitions c p) (env : Env)
    (henv : ∀ d ∈ ds, EnvIn (Visible c p d) env)
    (hos : ∀ o ∈ definitionsOccurrences env ds, c.resolution.symbol? o.mark.id = o.meaning? imports) :
    ∀ e ∈ definitionsOfAll c ds, Covered (Visible c p e) (definitionsOccurrences env ds) (bodyBoxes c e) := by
  intro e he
  rw [definitionsOfAll_eq] at he
  obtain ⟨d, hd, he⟩ := mem_flatMap.mp he
  have hsub : uses env (.definition d) ⊆ definitionsOccurrences env ds := by
    rw [definitionsOccurrences_eq, ← definitionOccurrences_eq_uses]
    exact fun o ho => mem_flatMap.mpr ⟨d, hd, ho⟩
  exact (covered_sized.2 d (hds d hd) env (henv d hd) (fun o ho => hos o (hsub ho)) e he).mono hsub

end Patchbay.Lexical

namespace Patchbay.Sizing

open Lexical

/-! ## Programs -/

/-- What the sizing of a program refers to. -/
def programSizing (primitives : Primitives) (available : Libraries) (p : Program) : Context :=
  ⟨(p.resolve primitives available).1, primitives⟩

variable {b : Box} {id : Nat} {d e : Definition} {r : Resolution}

theorem userDefinition?_of_referred? (h : Delay.referred? r b = some d) :
    ∃ id, b.nameId? = some id ∧ r.userDefinition? id = some d := by
  unfold Delay.referred? at h
  split at h
  · rename_i id hid
    exact ⟨id, hid, h⟩
  · simp at h

variable (primitives : Primitives) (available : Libraries) {p : Program}

variable (hids : (p.nodes.map (·.mark.id)).Nodup)

include hids

/-- A box refers to what can be seen from its definition. -/
theorem visible_of_referred {c : Context}
    (hc : c = programSizing primitives available p) (hd : d ∈ sizedDefinitions c p) (hb : b ∈ bodyBoxes c d)
    (he : Delay.referred? c.resolution b = some e) : Visible c p d e := by
  subst hc
  have hserve := serve_kept available p
  have hcovered := covered_definitions p.definitions (fun _ hx => subset_definitionsOfAll p.definitions hx) _
    (fun _ _ => envIn_programEnv primitives p fun _ hx => .top hx)
    (fun o ho => symbol?_of_mem primitives hids hserve ho) d hd
  obtain ⟨id, hid, huser⟩ := userDefinition?_of_referred? he
  obtain ⟨symbol, hsymbol, -, hdefinition⟩ := userDefinition?_eq_some_iff.mp huser
  obtain ⟨o, ho, rfl, hoenv⟩ := hcovered b hb id hid
  have hmeaning := (symbol?_of_mem primitives hids hserve ho).symm.trans hsymbol
  exact (definition_of_meaning? hoenv hmeaning hdefinition).2

/-- What a node is bound to is a definition of the program. -/
theorem mem_nodes_of_symbol? {symbol : Symbol}
    (hsymbol : (p.resolve primitives available).1.symbol? id = some symbol) (hdefinition : symbol.definition = some d) :
    symbol.kind = .userDefined ∧ Node.definition d ∈ p.nodes := by
  have hserve := serve_kept available p
  by_cases hid : ∃ o ∈ programOccurrences primitives p, o.mark.id = id
  · obtain ⟨o, ho, rfl⟩ := hid
    have henv : EnvIn (fun e => Node.definition e ∈ p.nodes) (programEnv primitives p) :=
      envIn_programEnv primitives p fun e he => p.mem_nodes_of_definition he
    have hoenv : EnvIn (fun e => Node.definition e ∈ p.nodes) o.env := by
      rw [programOccurrences, definitionsOccurrences_eq] at ho
      obtain ⟨e, he, ho⟩ := mem_flatMap.mp ho
      exact envIn_uses (.definition e) _ henv
        (fun _ hx => p.partsIn_nodes.nodes_definition e (p.mem_nodes_of_definition he) hx) o
        (definitionOccurrences_eq_uses e ▸ ho)
    have hmeaning := (symbol?_of_mem primitives hids hserve ho).symm.trans hsymbol
    exact definition_of_meaning? hoenv hmeaning hdefinition
  · have hnone := symbol?_of_not_mem primitives available p fun o ho heq => hid ⟨o, ho, heq⟩
    exact absurd (hnone.symm.trans hsymbol) (by simp)

theorem mem_nodes_of_userDefinition?
    (h : (p.resolve primitives available).1.userDefinition? id = some d) : Node.definition d ∈ p.nodes := by
  obtain ⟨symbol, hsymbol, -, hdefinition⟩ := userDefinition?_eq_some_iff.mp h
  exact (mem_nodes_of_symbol? primitives available hids hsymbol hdefinition).2

/-- References to definitions with one number refer to one definition. -/
theorem coherent_resolve : Delay.Coherent (p.resolve primitives available).1 := by
  intro i j d e hd he hid
  have hd' := mem_nodes_of_userDefinition? primitives available hids hd
  have he' := mem_nodes_of_userDefinition? primitives available hids he
  exact Node.definition.inj (inj_on_of_nodup_map hids hd' he' hid)

end Patchbay.Sizing
