import Patchbay.Proofs.Scope.Events

/-!
# Visits follow the environment

A visit of a box from a scope that sees an environment does to the bindings, counts and findings what the events of the
box in this environment say, one after another, and adds scopes without changing those that were there. `Records` says
what happens to the records, `Effect` adds what happens to the scopes.
-/

open List

namespace Patchbay.Lexical

open Resolver

/-! ## What a visit records -/

/-- From one state to another the events are recorded, one after another. -/
structure Records (imports : Imports) (context : Context) (es : List Event) (s s' : State) : Prop where
  bindings : s'.bindings = (es.filterMap Event.use?).foldl (Occurrence.bind imports) s.bindings
  references : s'.references = (es.filterMap Event.use?).foldl (Occurrence.count imports) s.references
  findings : s'.findings = s.findings ++ es.filterMap (Event.finding? imports context)

variable {imports : Imports} {context : Context} {es es' : List Event} {found found' : List Finding} {s s' s'' : State}

theorem Records.trans (h : Records imports context es s s') (h' : Records imports context es' s' s'') :
    Records imports context (es ++ es') s s'' := by
  constructor
  · rw [h'.bindings, h.bindings, filterMap_append, foldl_append]
  · rw [h'.references, h.references, filterMap_append, foldl_append]
  · rw [h'.findings, h.findings, filterMap_append, List.append_assoc]

/-- A change of the scopes alone records nothing. -/
theorem Records.ofTree (s : State) (tree : ScopeTree) : Records imports context [] s { s with tree } :=
  ⟨rfl, rfl, (append_nil _).symm⟩

/-- Events are recorded, and the scopes only grow. -/
structure Effect (imports : Imports) (context : Context) (es : List Event) (s s' : State) : Prop where
  records : Records imports context es s s'
  ordered : s'.tree.Ordered
  grows : s.tree.Grows s'.tree

theorem Effect.refl (h : s.tree.Ordered) : Effect imports context [] s s :=
  ⟨.ofTree s s.tree, h, .refl s.tree⟩

theorem Effect.trans (h : Effect imports context es s s') (h' : Effect imports context es' s' s'') :
    Effect imports context (es ++ es') s s'' :=
  ⟨h.records.trans h'.records, h'.ordered, h.grows.trans h'.grows⟩

/-! ## Names -/

/-- The libraries of a context give every name what the imports give it. -/
def Imports.Serve (imports : Imports) (context : Context) : Prop :=
  ∀ name, importedSymbol? context name = imports.symbol? name

variable {env : Env} {scope : Nat} {first symbol : Symbol} {parent : Option Int} {earlier : List Symbol}

variable {tree : ScopeTree}

/-- From a scope that sees an environment, a name stands for its meaning in it. -/
theorem symbolOf?_eq (hc : imports.Serve context) (hsees : tree.Sees scope env) (name : String) :
    symbolOf? context tree scope name = meaning? imports env name := by
  unfold symbolOf? meaning?
  rewrite [hsees name, hc name]
  rfl

/-- A name or call is recorded as an occurrence. The scopes stay. -/
theorem records_reference (hc : imports.Serve context) (hsees : s.tree.Sees scope env) (mark : Mark) (name : String) :
    Records imports context [.use ⟨mark, name, env⟩] s (reference context scope mark name s) := by
  have hmeaning := symbolOf?_eq hc hsees name
  unfold reference
  rw [hmeaning]
  cases h : meaning? imports env name with
  | none =>
    constructor
    · simp [Event.use?, Occurrence.bind, Occurrence.meaning?, h]
    · simp [Event.use?, Occurrence.count, Occurrence.meaning?, h]
    · simp [Event.finding?, Occurrence.finding?, Occurrence.meaning?, h, hint_eq context hsees name]
  | some symbol =>
    constructor
    · simp [Event.use?, Occurrence.bind, Occurrence.meaning?, h]
    · simp [Event.use?, Occurrence.count, Occurrence.meaning?, h]
    · simp [Event.finding?, Occurrence.finding?, Occurrence.meaning?, h]

theorem tree_reference (context : Context) (scope : Nat) (mark : Mark) (name : String) (s : State) :
    (reference context scope mark name s).tree = s.tree := by
  unfold reference
  split <;> rfl

theorem effect_reference (hc : imports.Serve context) (hs : s.tree.Ordered) (hsees : s.tree.Sees scope env)
    (mark : Mark) (name : String) :
    Effect imports context [.use ⟨mark, name, env⟩] s (reference context scope mark name s) := by
  refine ⟨records_reference hc hsees mark name, ?_, ?_⟩
  · rw [tree_reference]
    exact hs
  · rw [tree_reference]
    exact .refl _

/-! ## Binding the names of a scope -/

/-- Binds symbols in a scope, each with its place, in order. -/
def bindAll (scope : Nat) (entries : List (Symbol × Position)) (s : State) : State :=
  entries.foldl (fun s e => bindNew scope e.1 e.2 s) s

theorem bindDefinitions_eq (scope : Nat) (definitions : List Definition) (s : State) :
    bindDefinitions scope definitions s = bindAll scope (definitionEntries definitions) s := by
  simp only [bindDefinitions, bindAll, definitionEntries, foldl_map]

theorem bindParameters_eq (scope : Nat) (d : Definition) (s : State) :
    bindParameters scope d s = bindAll scope (parameterEntries d.params d.position) s := by
  simp only [bindParameters, bindAll, parameterEntries, foldl_map]

/-- One scope of a state holds these symbols, the first one of each name. -/
def Holds (scope : Nat) (parent : Option Int) (symbols : List Symbol) (s : State) : Prop :=
  ∃ bindings, s.tree.get? scope = some ⟨parent, bindings⟩
    ∧ ∀ name, bindings.get? name = Frame.ofSymbols symbols name

/-- From one state to another only one scope changes, and names bound twice are reported. -/
structure Fills (scope : Nat) (found : List Finding) (s s' : State) : Prop where
  bindings : s'.bindings = s.bindings
  references : s'.references = s.references
  findings : s'.findings = s.findings ++ found
  ordered : s.tree.Ordered → s'.tree.Ordered
  size : s'.tree.size = s.tree.size
  others : ∀ i, i ≠ scope → s'.tree.get? i = s.tree.get? i

theorem Fills.trans (h : Fills scope found s s') (h' : Fills scope found' s' s'') :
    Fills scope (found ++ found') s s'' := by
  constructor
  · rw [h'.bindings, h.bindings]
  · rw [h'.references, h.references]
  · rw [h'.findings, h.findings, List.append_assoc]
  · intro hs
    exact h'.ordered (h.ordered hs)
  · rw [h'.size, h.size]
  · intro i hi
    rw [h'.others i hi, h.others i hi]

theorem ofSymbols_append (symbols more : List Symbol) (name : String) :
    Frame.ofSymbols (symbols ++ more) name
      = (Frame.ofSymbols symbols name).or (Frame.ofSymbols more name) := by
  simp [Frame.ofSymbols, find?_append]

/-- A symbol whose name is bound already can be left out. -/
theorem ofSymbols_append_cons_of_some (h : Frame.ofSymbols earlier symbol.name = some first) (rest : List Symbol)
    (name : String) : Frame.ofSymbols (earlier ++ symbol :: rest) name = Frame.ofSymbols (earlier ++ rest) name := by
  rw [ofSymbols_append, ofSymbols_append]
  by_cases hname : symbol.name = name
  · rw [← hname, h]
    rfl
  · have hrest : Frame.ofSymbols (symbol :: rest) name = Frame.ofSymbols rest name := by
      simp [Frame.ofSymbols, hname]
    rw [hrest]

theorem bound?_of_holds {symbols : List Symbol} (h : Holds scope parent symbols s) (name : String) :
    s.tree.bound? scope name = Frame.ofSymbols symbols name := by
  obtain ⟨bindings, hget, hbindings⟩ := h
  unfold ScopeTree.bound?
  rw [hget]
  exact hbindings name

/-- The step of a new name: it stands in the scope behind the others. -/
theorem bindNew_of_none (hs : Holds scope parent earlier s) (h : Frame.ofSymbols earlier symbol.name = none)
    (position : Position) :
    Fills scope [] s (bindNew scope symbol position s)
      ∧ Holds scope parent (earlier ++ [symbol]) (bindNew scope symbol position s) := by
  have hbound : s.tree.bound? scope symbol.name = none := (bound?_of_holds hs symbol.name).trans h
  have hstep : bindNew scope symbol position s = { s with tree := s.tree.bind scope symbol } := by
    unfold bindNew
    rw [hbound]
  rw [hstep]
  obtain ⟨bindings, hget, hbindings⟩ := hs
  refine ⟨?_, bindings.insert symbol.name symbol, ScopeTree.get?_bind_self hget symbol, ?_⟩
  · refine ⟨rfl, rfl, (append_nil _).symm, ?_, ScopeTree.size_bind _ _ _, ?_⟩
    · intro hordered
      exact hordered.bind scope symbol
    · intro i hi
      exact ScopeTree.get?_bind_of_ne hi symbol
  · intro name
    rw [Table.get?_insert, hbindings name, ofSymbols_append]
    by_cases hname : name = symbol.name
    · subst hname
      rw [h, if_pos rfl]
      simp [Frame.ofSymbols]
    · simp [hname, Frame.ofSymbols, Ne.symm hname]

/-- The step of a name that the scope binds already: it is reported, and the scope stays. -/
theorem bindNew_of_some (hs : Holds scope parent earlier s) (h : Frame.ofSymbols earlier symbol.name = some first)
    (position : Position) :
    Fills scope [⟨position, .duplicateName symbol.name first.site⟩] s (bindNew scope symbol position s)
      ∧ Holds scope parent earlier (bindNew scope symbol position s) := by
  have hbound : s.tree.bound? scope symbol.name = some first := (bound?_of_holds hs symbol.name).trans h
  unfold bindNew
  rw [hbound]
  exact ⟨⟨rfl, rfl, rfl, id, rfl, fun _ _ => rfl⟩, hs⟩

/-- After all symbols are bound, the scope holds the first one of each name, and all others are reported. -/
theorem bindAll_spec (entries : List (Symbol × Position)) (earlier : List Symbol) (s : State)
    (hs : Holds scope parent earlier s) :
    Fills scope (repeats earlier entries) s (bindAll scope entries s)
      ∧ Holds scope parent (earlier ++ entries.map (·.1)) (bindAll scope entries s) := by
  induction entries generalizing earlier s with
  | nil =>
    refine ⟨⟨rfl, rfl, (append_nil _).symm, id, rfl, fun _ _ => rfl⟩, ?_⟩
    simpa [bindAll] using hs
  | cons entry rest ih =>
    obtain ⟨symbol, position⟩ := entry
    have hunfold : bindAll scope ((symbol, position) :: rest) s
        = bindAll scope rest (bindNew scope symbol position s) := rfl
    rw [hunfold, map_cons]
    cases h : Frame.ofSymbols earlier symbol.name with
    | none =>
      -- A new name: from here on it is one of the earlier ones.
      obtain ⟨hfills, hholds⟩ := bindNew_of_none hs h position
      obtain ⟨hfills', hholds'⟩ := ih _ _ hholds
      have hrepeats : repeats earlier ((symbol, position) :: rest)
          = [] ++ repeats (earlier ++ [symbol]) rest := by
        rw [repeats, h]
        rfl
      rw [hrepeats]
      refine ⟨hfills.trans hfills', ?_⟩
      simpa using hholds'
    | some first =>
      -- The scope stays without the symbol, which the frame does not show either.
      obtain ⟨hfills, hholds⟩ := bindNew_of_some hs h position
      obtain ⟨hfills', bindings, hget, hbindings⟩ := ih _ _ hholds
      have hrepeats : repeats earlier ((symbol, position) :: rest)
          = [⟨position, .duplicateName symbol.name first.site⟩] ++ repeats earlier rest := by
        rw [repeats, h]
        rfl
      rw [hrepeats]
      refine ⟨hfills.trans hfills', bindings, hget, ?_⟩
      intro name
      rw [hbindings name, ofSymbols_append_cons_of_some h]

/-- Filling a new scope records no occurrence. -/
theorem Fills.records {entries : List (Symbol × Position)} (h : Fills scope (repeats [] entries) s s') :
    Records imports context (entryEvents entries) s s' := by
  have huses := (Lists.entries entries).uses
  refine ⟨?_, ?_, ?_⟩
  · rw [huses, h.bindings, foldl_nil]
  · rw [huses, h.references, foldl_nil]
  · rw [h.findings, entryEvents, filterMap_map]
    exact congrArg _ filterMap_some.symm

/-- A scope opened inside one that sees an environment, with symbols bound in it, sees them in front of that
environment. -/
theorem effect_open (imports : Imports) (context : Context) (hs : s.tree.Ordered) (hscope : scope < s.tree.size)
    (hsees : s.tree.Sees scope env) (entries : List (Symbol × Position)) :
    Effect imports context (entryEvents entries) s (bindAll s.tree.size entries (s.openScope scope))
      ∧ s.tree.size < (bindAll s.tree.size entries (s.openScope scope)).tree.size
      ∧ (bindAll s.tree.size entries (s.openScope scope)).tree.Sees s.tree.size
          (Frame.ofSymbols (entries.map (·.1)) :: env) := by
  have hempty : Holds s.tree.size (some (scope : Int)) [] (s.openScope scope) :=
    ⟨.empty, ScopeTree.get?_add_size s.tree _, fun _ => rfl⟩
  obtain ⟨hfills, bindings, hget, hbindings⟩ := bindAll_spec entries [] _ hempty
  have hordered := hfills.ordered (hs.add hscope)
  have hsize : (bindAll s.tree.size entries (s.openScope scope)).tree.size = s.tree.size + 1 := by
    rw [hfills.size]
    exact ScopeTree.size_add s.tree _
  -- Binding changes the new scope only, so the scopes that were there before stay.
  have hgrows : s.tree.Grows (bindAll s.tree.size entries (s.openScope scope)).tree := by
    refine ⟨by omega, ?_⟩
    intro i hi
    rw [hfills.others i (by omega)]
    exact ScopeTree.get?_add_of_lt hi _
  refine ⟨⟨(Records.ofTree s _).trans hfills.records, hordered, hgrows⟩, by omega, ?_⟩
  exact ScopeTree.Sees.cons hordered hget hbindings (hsees.of_grows hs hgrows hscope)

/-- A scope opened for the variable of an iteration sees it in front of the environment; the iteration form itself is
an occurrence outside of the scope. -/
theorem effect_iteration (hc : imports.Serve context) (hs : s.tree.Ordered) (hscope : scope < s.tree.size)
    (hsees : s.tree.Sees scope env) (mark : Mark) (name : String) (variableMark : Mark) (variableName : String) :
    let opened := reference context scope mark name (s.openScope scope)
    let bound := { opened with
      tree := opened.tree.bind s.tree.size (variableSymbol variableName variableMark.position) }
    Effect imports context [.use ⟨mark, name, env⟩] s bound
      ∧ s.tree.size < bound.tree.size
      ∧ bound.tree.Sees s.tree.size (variableFrame (.ref variableMark variableName) :: env) := by
  intro opened bound
  have htree : opened.tree = s.tree.add (some (scope : Int)) := tree_reference context scope mark name _
  have hadd : (s.tree.add (some (scope : Int))).Ordered := hs.add hscope
  have hordered : bound.tree.Ordered := by
    show (opened.tree.bind _ _).Ordered
    rw [htree]
    exact hadd.bind _ _
  have hsize : bound.tree.size = s.tree.size + 1 := by
    show (opened.tree.bind _ _).size = _
    rw [ScopeTree.size_bind, htree, ScopeTree.size_add]
  have hgrows : s.tree.Grows bound.tree := by
    refine ⟨by omega, ?_⟩
    intro i hi
    show (opened.tree.bind _ _).get? i = _
    rw [ScopeTree.get?_bind_of_ne (by omega), htree, ScopeTree.get?_add_of_lt hi]
  have hget : bound.tree.get? s.tree.size = some ⟨some (scope : Int), Table.empty.insert variableName
      (variableSymbol variableName variableMark.position)⟩ := by
    show (opened.tree.bind _ _).get? _ = _
    rw [htree]
    exact ScopeTree.get?_bind_self (ScopeTree.get?_add_size s.tree _) _
  -- The form is looked up when its scope is open already, but from the scope outside.
  have hsees' : (s.openScope scope).tree.Sees scope env :=
    hsees.of_grows hs (ScopeTree.grows_add s.tree _) hscope
  have hopened : Records imports context [.use ⟨mark, name, env⟩] (s.openScope scope) opened :=
    records_reference hc hsees' mark name
  have hrecords : Records imports context [.use ⟨mark, name, env⟩] s bound :=
    ((Records.ofTree s _).trans hopened).trans (.ofTree opened _)
  have hlt : s.tree.size < bound.tree.size := by omega
  refine ⟨⟨hrecords, hordered, hgrows⟩, hlt, ?_⟩
  refine ScopeTree.Sees.cons hordered hget ?_ (hsees.of_grows hs hgrows hscope)
  intro wanted
  rw [Table.get?_insert]
  by_cases hname : wanted = variableName
  · simp [hname, variableFrame, Frame.ofSymbols, variableSymbol]
  · simp [hname, variableFrame, Frame.ofSymbols, variableSymbol, Ne.symm hname]

/-- A frame that binds nothing is seen through. -/
theorem sees_nil_frame (h : tree.Sees scope env) : tree.Sees scope (Frame.ofSymbols [] :: env) := by
  intro name
  rw [h name]
  rfl

theorem isIteration_eq (h : tree.Sees scope env) (name : String) (args : List Box) :
    Resolver.isIteration tree scope name args = isIteration env name args := by
  unfold Resolver.isIteration isIteration
  rewrite [h name]
  rfl

/-! ## Visits -/

/-- From a scope that sees an environment, an action has the effect of events. -/
def Follows (imports : Imports) (context : Context) (scope : Nat) (env : Env) (es : List Event) (f : State → State) :
    Prop :=
  ∀ s : State, s.tree.Ordered → scope < s.tree.size → s.tree.Sees scope env → Effect imports context es s (f s)

/-- The scope still sees the environment after the first action. -/
theorem Follows.comp {f g : State → State} (h : Follows imports context scope env es f)
    (h' : Follows imports context scope env es' g) : Follows imports context scope env (es ++ es') (g ∘ f) := by
  intro s hs hscope hsees
  have hfirst := h s hs hscope hsees
  exact hfirst.trans (h' _ hfirst.ordered (Nat.lt_of_lt_of_le hscope hfirst.grows.size)
    (hsees.of_grows hs hfirst.grows hscope))

theorem Follows.id : Follows imports context scope env [] id := fun _ hs _ _ => .refl hs

mutual

/-- The visit of a box. -/
theorem effect_visitBox (hc : imports.Serve context) (b : Box) (scope : Nat) (env : Env) :
    Follows imports context scope env (events env b) (visitBox context scope b) := by
  cases b with
  | ref mark name => exact fun _ hs _ hsees => effect_reference hc hs hsees mark name
  | number | string => exact .id
  | compose mark op left right => exact (effect_visitBox hc left scope env).comp (effect_visitBox hc right scope env)
  | block mark body locals =>
    intro s hs hscope hsees
    obtain ⟨hopen, hsize, hinner⟩ :=
      effect_open imports context hs hscope hsees (definitionEntries locals)
    have hframe : Frame.ofSymbols ((definitionEntries locals).map (·.1)) = definitionFrame locals := by
      simp [definitionEntries, definitionFrame, Function.comp_def]
    rw [hframe] at hinner
    rw [← bindDefinitions_eq] at hopen hsize hinner
    -- The body comes first, and its visit leaves the scope of the local definitions as it is.
    have hparts := (effect_visitBox hc body s.tree.size (definitionFrame locals :: env)).comp
      (effect_visitDefinitions hc locals s.tree.size _)
    exact hopen.trans (hparts _ hopen.ordered hsize hinner)
  | call mark name args =>
    intro s hs hscope hsees
    have hiter := isIteration_eq hsees name args
    -- The scope and the environment agree on whether the call opens a scope.
    cases hcase : isIteration env name args with
    | false =>
      have hname : Follows imports context scope env [.use ⟨mark, name, env⟩] (reference context scope mark name) :=
        fun _ hs _ hsees => effect_reference hc hs hsees mark name
      rw [visitBox, hiter, hcase, events, hcase]
      exact hname.comp (effect_visitBoxes hc args scope env) s hs hscope hsees
    | true =>
      rw [visitBox, hiter, hcase, events, hcase]
      exact effect_visitIteration hc args s scope env mark name hs hscope hsees
        (exists_of_isIteration hcase)

/-- The visit of boxes, one after another. -/
theorem effect_visitBoxes (hc : imports.Serve context) (bs : List Box) (scope : Nat) (env : Env) :
    Follows imports context scope env (eventsAll env bs) (visitBoxes context scope bs) := by
  cases bs with
  | nil => exact .id
  | cons b rest => exact (effect_visitBox hc b scope env).comp (effect_visitBoxes hc rest scope env)

/-- The visit of an iteration: the form, the count outside of the scope of the variable, and the body inside. -/
theorem effect_visitIteration (hc : imports.Serve context) (args : List Box) (s : State) (scope : Nat) (env : Env)
    (mark : Mark) (name : String) (hs : s.tree.Ordered) (hscope : scope < s.tree.size) (hsees : s.tree.Sees scope env)
    (hargs : ∃ variableMark variableName count body, args = [.ref variableMark variableName, count, body]) :
    Effect imports context (.use ⟨mark, name, env⟩ :: iterationEvents env args) s
      (visitIteration context scope s.tree.size args (reference context scope mark name (s.openScope scope))) := by
  obtain ⟨variableMark, variableName, _, _, hargs⟩ := hargs
  match args with
  | [] => simp at hargs
  | [_] => simp at hargs
  | [_, _] => simp at hargs
  | _ :: _ :: _ :: _ :: _ => simp at hargs
  | [binder, count, body] =>
    obtain rfl : binder = .ref variableMark variableName := (List.cons.inj hargs).1
    obtain ⟨hopen, hsize, hinner⟩ :=
      effect_iteration hc hs hscope hsees mark name variableMark variableName
    have hcount := effect_visitBox hc count scope env _ hopen.ordered (by omega)
      (hsees.of_grows hs hopen.grows hscope)
    have hbody := effect_visitBox hc body _ _ _ hcount.ordered
      (Nat.lt_of_lt_of_le hsize hcount.grows.size) (hinner.of_grows hopen.ordered hcount.grows hsize)
    exact hopen.trans (hcount.trans hbody)

/-- The visit of a definition. -/
theorem effect_visitDefinition (hc : imports.Serve context) (d : Definition) (scope : Nat) (env : Env) :
    Follows imports context scope env (definitionEvents env d) (visitDefinition context scope d) := by
  match d with
  | ⟨_, _, _, none, _⟩ => exact .id
  | ⟨mark, name, params, some body, stop⟩ =>
    intro s hs hscope hsees
    rw [visitDefinition, definitionEvents]
    cases hinvalid : mark.invalid with
    | true => exact .refl hs
    | false =>
      cases params with
      | nil =>
        -- Without parameters there is no scope, and the environment has an empty one.
        exact effect_visitBox hc body scope _ s hs hscope (sees_nil_frame hsees)
      | cons param params =>
        obtain ⟨hopen, hsize, hinner⟩ :=
          effect_open imports context hs hscope hsees (parameterEntries (param :: params) mark.position)
        have hframe : Frame.ofSymbols ((parameterEntries (param :: params) mark.position).map (·.1))
            = parameterFrame (param :: params) mark.position := by
          simp [parameterEntries, parameterFrame, Function.comp_def]
        rw [hframe] at hinner
        have hbody := effect_visitBox hc body _ _ _ hopen.ordered hsize hinner
        rw [if_neg Bool.false_ne_true, if_neg Bool.false_ne_true]
        dsimp only [isEmpty_cons]
        rw [if_neg Bool.false_ne_true, bindParameters_eq]
        exact hopen.trans hbody

/-- The visit of definitions, one after another. -/
theorem effect_visitDefinitions (hc : imports.Serve context) (ds : List Definition) (scope : Nat) (env : Env) :
    Follows imports context scope env (definitionsEvents env ds) (visitDefinitions context scope ds) := by
  cases ds with
  | nil => exact .id
  | cons d rest => exact (effect_visitDefinition hc d scope env).comp (effect_visitDefinitions hc rest scope env)

end

end Patchbay.Lexical
