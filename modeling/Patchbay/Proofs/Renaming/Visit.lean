import Patchbay.Proofs.Renaming.Renamed
import Patchbay.Proofs.Scope.Order

/-!
# Renamed programs are resolved alike

A visit comes across events in the same order in a program and in the renamed program. Scopes hold symbols that are
alike under names that the renaming takes to each other, so the same nodes are bound, to symbols that are alike, and the
same is reported at the same places, up to the names in messages and the hints.
-/

open List

namespace Patchbay

open Lexical

/-- What a finding says besides its message. -/
structure Finding.Summary where
  kind : DiagnosticKind
  subtype : Option Mismatch
  severity : Severity
  position : Position
deriving Repr, DecidableEq

/-- The summary of a finding. -/
def Finding.summary (f : Finding) : Finding.Summary := ⟨f.issue.kind, f.issue.subtype, f.issue.severity, f.position⟩

/-- All nodes are viewed, and names are not shown. -/
def View.unnamed : View := .whole fun _ => ""

variable {ρ : Renaming} {r r' : Resolution}

/-! ## A renamed box is alike -/

/-- The uses that a renaming changes are bound to nothing that is built in. -/
def Renaming.Spares (ρ : Renaming) (r : Resolution) (mentions : List Mention) : Prop :=
  ∀ m ∈ mentions, m.binding = false → m.scope = some ρ.owner → (r.symbol? m.node).any Symbol.isBuiltin = false

variable {opener : Nat} {mark : Mark} {name : String} {p : Program} {scopes : List Node} {symbols : List Symbol}
  {mentions mentions' : List Mention} {ds : List Definition} {f : String → String}
  {entries entries' : List (Symbol × Position)}

theorem Renaming.Spares.callsAlike (h : ρ.Spares r mentions) {id : Nat} {scope : Option Nat}
    (hm : ⟨id, name, scope, false⟩ ∈ mentions) : r.CallsAlike .unnamed id name (ρ.apply scope name) := by
  refine ⟨trivial, rfl, ?_⟩
  intro hbuiltin
  refine if_neg ?_
  rintro ⟨hscope, -⟩
  exact absurd (hbuiltin.symm.trans (h _ hm rfl hscope)) (by simp)

/-- The mentions are ready for a renaming: the new name is none of theirs, and the uses that change are bound to nothing
built in. -/
structure Lexical.Suits (ρ : Renaming) (r : Resolution) (mentions : List Mention) : Prop where
  fresh : ρ.Fresh mentions
  spares : ρ.Spares r mentions

namespace Lexical.Suits

theorem left (h : Suits ρ r (mentions ++ mentions')) : Suits ρ r mentions :=
  ⟨h.fresh.left, (forall_mem_append.mp h.spares).1⟩

theorem right (h : Suits ρ r (mentions ++ mentions')) : Suits ρ r mentions' :=
  ⟨h.fresh.right, (forall_mem_append.mp h.spares).2⟩

theorem tail {m : Mention} (h : Suits ρ r (m :: mentions)) : Suits ρ r mentions :=
  ⟨h.fresh.tail, (forall_mem_cons.mp h.spares).2⟩

end Lexical.Suits

open Lexical (Suits)

mutual

theorem Box.alike_rename (b : Box) (scopes : List Node) (h : Suits ρ r (b.mentions scopes)) :
    b.Alike .unnamed r r' (b.rename ρ scopes) := by
  cases b with
  | ref mark name => exact .ref trivial ..
  | number mark value text => exact .number ..
  | string mark value => exact .string ..
  | compose mark op left right =>
    rw [Box.mentions] at h
    exact .compose (Box.alike_rename left scopes h.left)
      (Box.alike_rename right scopes h.right)
  | block mark body locals =>
    rw [Box.mentions] at h
    exact .block (Box.alike_rename body _ h.left)
      (Definition.alike_renameAll locals mark.id _ h.right)
  | call mark name args =>
    rw [Box.mentions] at h
    have hname := h.spares.callsAlike mem_cons_self
    replace h := h.tail
    rw [Box.rename]
    refine .call hname ?_
    cases hiter : iterates scopes name args with
    | true =>
      rw [if_pos hiter] at h
      rw [if_pos rfl]
      exact Box.alike_renameIteration args _ (Bool.and_eq_true_iff.mp hiter).1 scopes h
    | false =>
      rw [hiter] at h
      rw [if_neg Bool.false_ne_true]
      exact Box.alike_renameAll args scopes h

theorem Box.alike_renameAll (bs : List Box) (scopes : List Node) (h : Suits ρ r (Box.mentionsAll scopes bs)) :
    Forall₂ (Box.Alike .unnamed r r') bs (Box.renameAll ρ scopes bs) := by
  cases bs with
  | nil => exact .nil
  | cons b rest =>
    rw [Box.mentionsAll] at h
    exact .cons (Box.alike_rename b scopes h.left)
      (Box.alike_renameAll rest scopes h.right)

theorem Box.alike_renameIteration (args : List Box) (opener : Node) (hargs : areIterated args)
    (scopes : List Node) (h : Suits ρ r (Box.mentionsIteration opener scopes args)) :
    Forall₂ (Box.Alike .unnamed r r') args (Box.renameIteration ρ opener scopes args) := by
  match args with
  | [] | [_] | [_, _] | _ :: _ :: _ :: _ :: _ => simp [areIterated] at hargs
  | [binder, count, body] =>
    rw [Box.mentionsIteration] at h
    replace h := h.right
    have hbinder : binder.Alike .unnamed r r' (binder.renameVariable ρ opener.mark.id) := by
      cases binder with
      | ref mark name => exact .ref trivial ..
      | number | string | call | compose | block => simp [areIterated] at hargs
    exact .cons hbinder (.cons (Box.alike_rename count scopes h.left)
      (.cons (Box.alike_rename body _ h.right) .nil))

theorem Definition.alike_rename (d : Definition) (opener : Nat) (scopes : List Node)
    (h : Suits ρ r (d.mentions opener scopes)) : d.Alike .unnamed r r' (d.rename ρ opener scopes) := by
  match d with
  | ⟨mark, name, params, none, stop⟩ => exact .valid rfl (length_map _) .none
  | ⟨mark, name, params, some body, stop⟩ =>
    rw [Definition.mentions] at h
    replace h := h.tail.right
    exact .valid rfl (length_map _) (.some (Box.alike_rename body _ h))

theorem Definition.alike_renameAll (ds : List Definition) (opener : Nat) (scopes : List Node)
    (h : Suits ρ r (Definition.mentionsAll opener scopes ds)) :
    Forall₂ (Definition.Alike .unnamed r r') ds (Definition.renameAll ρ opener scopes ds) := by
  cases ds with
  | nil => exact .nil
  | cons d rest =>
    rw [Definition.mentionsAll] at h
    exact .cons (Definition.alike_rename d opener scopes h.left)
      (Definition.alike_renameAll rest opener scopes h.right)

end

/-! ## Scopes that hold alike symbols -/

/-- The second node opens the scope of the first after a renaming, with symbols that are alike. -/
structure Node.Twins (ρ : Renaming) (r r' : Resolution) (n n' : Node) : Prop where
  renames : n.Renames ρ n'
  symbols : Forall₂ (Symbol.Alike .unnamed r r') n.symbols n'.symbols

open Resolver (definitionSymbol variableSymbol)

theorem alike_variableSymbol (name name' : String) (site : Position) :
    (variableSymbol name site).Alike .unnamed r r' (variableSymbol name' site) :=
  ⟨rfl, rfl, rfl, .none⟩

theorem alike_definitionSymbols {ds' : List Definition} (h : Forall₂ (Definition.Alike .unnamed r r') ds ds') :
    Forall₂ (Symbol.Alike .unnamed r r') (ds.map definitionSymbol) (ds'.map definitionSymbol) := by
  rw [forall₂_map_left_iff, forall₂_map_right_iff]
  exact h.imp fun _ _ hd => ⟨rfl, rfl, rfl, .some hd⟩

theorem Node.twins_program (h : Suits ρ r p.mentions) : (Node.program p).Twins ρ r r' (.program (p.rename ρ)) :=
  ⟨Node.renames_program h.fresh, alike_definitionSymbols (Definition.alike_renameAll p.definitions _ _ h)⟩

theorem Node.twins_block (r' : Resolution) (body body' : Box) {locals : List Definition}
    (h : Suits ρ r (Definition.mentionsAll mark.id scopes locals)) :
    (Node.box (.block mark body locals)).Twins ρ r r'
      (.box (.block mark body' (Definition.renameAll ρ mark.id scopes locals))) :=
  ⟨Node.renames_block body body' h.fresh, alike_definitionSymbols (Definition.alike_renameAll locals _ _ h)⟩

theorem Node.twins_definition (r r' : Resolution) {d : Definition} (hfresh : ρ.Fresh (d.mentions opener scopes)) :
    (Node.definition d).Twins ρ r r' (.definition (d.rename ρ opener scopes)) := by
  refine ⟨Node.renames_definition hfresh, ?_⟩
  simp only [Node.symbols, Definition.params_rename, map_map, forall₂_map_left_iff, forall₂_map_right_iff,
    Function.comp_apply, Definition.position, Definition.mark_rename]
  exact forall₂_same.mpr fun _ _ => alike_variableSymbol _ _ _

theorem Node.twins_iteration (r r' : Resolution) (name' : String) {args : List Box}
    (hargs : areIterated args)
    (hfresh : ρ.Fresh (Box.mentionsIteration (.box (.call mark name args)) scopes args)) :
    (Node.box (.call mark name args)).Twins ρ r r'
      (.box (.call mark name' (Box.renameIteration ρ (.box (.call mark name args)) scopes args))) := by
  refine ⟨Node.renames_iteration name' hargs hfresh, ?_⟩
  unfold areIterated at hargs
  split at hargs
  · exact .cons (alike_variableSymbol _ _ _) .nil
  · simp at hargs

namespace Lexical

variable {scopes scopes' : List Node} {name : String}

/-- Scopes that are twins have alike symbols under names that correspond. -/
theorem ofSymbols_twins (name : String) {symbols' : List Symbol}
    (hsymbols : Forall₂ (Symbol.Alike .unnamed r r') symbols symbols')
    (hnames : symbols'.map (·.name) = (symbols.map (·.name)).map f)
    (hf : ∀ other ∈ symbols.map (·.name), f other = f name → other = name) :
    Option.Rel (Symbol.Alike .unnamed r r') (Frame.ofSymbols symbols name) (Frame.ofSymbols symbols' (f name)) := by
  unfold Frame.ofSymbols
  induction hsymbols with
  | nil => exact .none
  | @cons s s' rest rest' hs _ ih =>
    obtain ⟨hname', hrest⟩ : s'.name = f s.name ∧ _ := List.cons.inj hnames
    rw [find?_cons, find?_cons, hname']
    by_cases hname : s.name = name
    · rw [beq_iff_eq.mpr hname, beq_iff_eq.mpr (congrArg f hname)]
      exact .some hs
    · have hne : ¬ f s.name = f name := fun heq => hname (hf s.name mem_cons_self heq)
      rw [beq_eq_false_iff_ne.mpr hname, beq_eq_false_iff_ne.mpr hne]
      exact ih hrest fun other hother => hf other (mem_cons_of_mem _ hother)

theorem alike_of_isOuter {symbol : Symbol} (h : IsOuter symbol) : symbol.Alike .unnamed r r' symbol := by
  refine ⟨rfl, rfl, rfl, ?_⟩
  rw [h.1]
  exact .none

/-- A name means alike symbols before and after a renaming. -/
theorem meaning?_twins (primitives : Primitives) (imports : Imports)
    (h : Forall₂ (Node.Twins ρ r r') scopes scopes') (hname : name ≠ ρ.new) :
    Option.Rel (Symbol.Alike .unnamed r r') (meaning? imports (scopesEnv primitives scopes) name)
      (meaning? imports (scopesEnv primitives scopes') (ρ.apply (scope? scopes name) name)) := by
  have hbinder := binder?_renames (fun _ _ hn => hn.renames) h hname
  unfold meaning?
  cases hfound : binder? scopes name with
  | none =>
    have hsame : ρ.apply (scope? scopes name) name = name := apply_of_unbound hfound
    rw [hfound, hsame] at hbinder
    rw [hsame, lookup_of_binder?_eq_none primitives hfound,
      lookup_of_binder?_eq_none primitives (eq_none_of_rel_none hbinder)]
    cases hbuiltin : (Resolver.builtinBindings primitives).get? name with
    | some symbol => exact .some (alike_of_isOuter (plain_builtinBindings primitives name symbol hbuiltin))
    | none =>
      cases hlibrary : imports.symbol? name with
      | none => exact .none
      | some symbol => exact .some (alike_of_isOuter (isOuter_of_library hlibrary))
  | some n =>
    rw [hfound] at hbinder
    obtain ⟨n', hfound', hn⟩ := exists_of_rel_some hbinder
    obtain ⟨hlookup, hmem⟩ := lookup_of_binder? primitives hfound
    obtain ⟨hlookup', -⟩ := lookup_of_binder? primitives hfound'
    have hscope : scope? scopes name = some n.mark.id := congrArg (Option.map _) hfound
    rw [hscope] at hlookup' ⊢
    have hsymbols := ofSymbols_twins name hn.symbols hn.renames.names fun other hother heq =>
      Renaming.eq_of_apply_eq (fun hnew => hn.renames.fresh (hnew ▸ hother)) hname heq
    cases hsymbol : Frame.ofSymbols n.symbols name with
    | none => exact absurd hmem (ofSymbols_eq_none_iff.mp hsymbol)
    | some symbol =>
      rw [hsymbol] at hsymbols
      obtain ⟨symbol', hsymbol', halike⟩ := exists_of_rel_some hsymbols
      rw [hlookup, hlookup', hsymbol, hsymbol']
      exact .some halike

/-! ## Names bound twice -/

theorem ofSymbols_isSome_iff : (Frame.ofSymbols symbols name).isSome ↔ name ∈ symbols.map (·.name) := by
  rw [← not_iff_not, Bool.not_eq_true, Option.isSome_eq_false_iff, Option.isNone_iff_eq_none, ofSymbols_eq_none_iff]

/-- The same entries are reported if names are exchanged for others without confusing any. -/
theorem summaries_repeats {earlier earlier' : List Symbol}
    (hearlier : earlier'.map (·.name) = (earlier.map (·.name)).map f)
    (hentries : Forall₂ (fun e e' => e'.1.name = f e.1.name ∧ e'.2 = e.2) entries entries')
    (hf : ∀ a ∈ earlier.map (·.name) ++ entries.map (·.1.name), ∀ b ∈ entries.map (·.1.name), f a = f b → a = b) :
    (repeats earlier' entries').map Finding.summary = (repeats earlier entries).map Finding.summary := by
  induction hentries generalizing earlier earlier' with
  | nil => rfl
  | @cons e e' rest rest' he _ ih =>
    obtain ⟨symbol, position⟩ := e
    obtain ⟨symbol', position'⟩ := e'
    obtain ⟨hname, rfl⟩ : symbol'.name = f symbol.name ∧ position' = position := he
    have hsame : (Frame.ofSymbols earlier' symbol'.name).isSome = (Frame.ofSymbols earlier symbol.name).isSome := by
      rw [Bool.eq_iff_iff, ofSymbols_isSome_iff, ofSymbols_isSome_iff, hearlier, hname, mem_map]
      constructor
      · rintro ⟨other, hother, heq⟩
        obtain rfl : other = symbol.name := hf other (mem_append_left _ hother) _ mem_cons_self heq
        exact hother
      · intro hmem
        exact ⟨_, hmem, rfl⟩
    rw [repeats, repeats]
    cases hfirst : Frame.ofSymbols earlier symbol.name with
    | none =>
      rw [hfirst, Option.isSome_none, Option.isSome_eq_false_iff, Option.isNone_iff_eq_none] at hsame
      rw [hsame]
      refine ih ?_ ?_
      · simp [hearlier, hname]
      · intro a ha b hb
        refine hf a ?_ b (mem_cons_of_mem _ hb)
        simpa [or_assoc] using ha
    | some first =>
      rw [hfirst, Option.isSome_some, Option.isSome_iff_exists] at hsame
      obtain ⟨first', hfirst'⟩ := hsame
      rw [hfirst', map_cons, map_cons]
      refine congrArg₂ List.cons rfl (ih hearlier ?_)
      intro a ha b hb
      refine hf a ?_ b (mem_cons_of_mem _ hb)
      rcases mem_append.mp ha with ha | ha
      · exact mem_append_left _ ha
      · exact mem_append_right _ (mem_cons_of_mem _ ha)

/-! ## The entries of scopes -/

open Resolver (definitionSymbol variableSymbol)

/-- The entries for what a node binds, and those after a renaming. -/
structure EntriesRenamed (ρ : Renaming) (opener : Nat) (entries entries' : List (Symbol × Position)) : Prop where
  pairs : Forall₂ (fun e e' => e'.1.name = ρ.apply (some opener) e.1.name ∧ e'.2 = e.2) entries entries'
  fresh : ρ.new ∉ entries.map (·.1.name)

theorem EntriesRenamed.summaries (h : EntriesRenamed ρ opener entries entries') :
    (repeats [] entries').map Finding.summary = (repeats [] entries).map Finding.summary := by
  refine summaries_repeats rfl h.pairs ?_
  intro a ha b hb
  exact Renaming.eq_of_apply_eq (fun hnew => h.fresh (hnew ▸ ha)) fun hnew => h.fresh (hnew ▸ hb)

theorem entriesRenamed_definitions (hfresh : ρ.Fresh (Definition.mentionsAll opener scopes ds)) :
    EntriesRenamed ρ opener (definitionEntries ds) (definitionEntries (Definition.renameAll ρ opener scopes ds)) := by
  constructor
  · unfold definitionEntries
    rw [forall₂_map_left_iff, forall₂_map_right_iff]
    clear hfresh
    induction ds with
    | nil => exact .nil
    | cons d rest ih =>
      refine .cons ⟨d.name_rename opener scopes, ?_⟩ ih
      exact congrArg Mark.position (d.mark_rename opener scopes)
  · simpa [definitionEntries, definitionSymbol] using hfresh.not_mem_names

theorem entriesRenamed_parameters {params : List String} (opener : Nat) (site : Position) (hfresh : ρ.new ∉ params) :
    EntriesRenamed ρ opener (parameterEntries params site)
      (parameterEntries (params.map (ρ.apply (some opener))) site) := by
  constructor
  · unfold parameterEntries
    rw [map_map, forall₂_map_left_iff, forall₂_map_right_iff]
    exact forall₂_same.mpr fun _ _ => ⟨rfl, rfl⟩
  · simpa [parameterEntries, variableSymbol] using hfresh

/-! ## Events in lockstep -/

/-- Events are alike if a node stands for symbols that are alike, and if the same is reported at the same place. -/
abbrev EventsAlike (imports : Imports) (r r' : Resolution) (es es' : List Event) : Prop :=
  Forall₂ (Event.Alike imports (Symbol.Alike .unnamed r r') fun f f' => f'.summary = f.summary) es es'

variable {primitives : Primitives} {imports : Imports}

/-! ## Parts of a program -/

/-- What is seen of a part of a program: its nodes, its mentions and its events. -/
structure Seen where
  nodes : List Node
  mentions : List Mention
  events : List Event

/-- What is seen after a renaming: nodes with the same marks, mentions with their names exchanged, and alike events. -/
structure Seen.Renamed (ρ : Renaming) (imports : Imports) (r r' : Resolution) (x x' : Seen) : Prop where
  marks : x'.nodes.map Node.mark = x.nodes.map Node.mark
  mentions : x'.mentions = x.mentions.map (Mention.rename ρ)
  events : EventsAlike imports r r' x.events x'.events

namespace Seen.Renamed

variable {x x' y y' : Seen}

theorem nil : Renamed ρ imports r r' ⟨[], [], []⟩ ⟨[], [], []⟩ := ⟨rfl, rfl, .nil⟩

variable (h : x.Renamed ρ imports r r' x')

include h

theorem append (h' : y.Renamed ρ imports r r' y') :
    Renamed ρ imports r r' ⟨x.nodes ++ y.nodes, x.mentions ++ y.mentions, x.events ++ y.events⟩
      ⟨x'.nodes ++ y'.nodes, x'.mentions ++ y'.mentions, x'.events ++ y'.events⟩ := by
  refine ⟨?_, ?_, rel_append h.events h'.events⟩
  · rw [map_append, map_append, h.marks, h'.marks]
  · rw [map_append, h.mentions, h'.mentions]

/-- One node more. -/
theorem node {n n' : Node} (hmark : n'.mark = n.mark) :
    Renamed ρ imports r r' { x with nodes := n :: x.nodes } { x' with nodes := n' :: x'.nodes } :=
  ⟨congrArg₂ List.cons hmark h.marks, h.mentions, h.events⟩

/-- A new scope is entered. -/
theorem enter (hentries : EntriesRenamed ρ opener entries entries') :
    Renamed ρ imports r r' { x with events := entryEvents entries ++ x.events }
      { x' with events := entryEvents entries' ++ x'.events } :=
  ⟨h.marks, h.mentions, rel_append (alike_entryEvents imports _ _ (forall₂_map_eq_iff.mpr hentries.summaries)) h.events⟩

/-- Names are bound in the scope that a node opens. -/
theorem bind (node scope : Nat) (names : List String) :
    Renamed ρ imports r r' { x with mentions := names.map (⟨node, ·, some scope, true⟩) ++ x.mentions }
      { x' with mentions := (names.map (ρ.apply (some scope))).map (⟨node, ·, some scope, true⟩) ++ x'.mentions } := by
  refine ⟨h.marks, ?_, h.events⟩
  rw [map_append, map_map, map_map, h.mentions]
  rfl

/-- A name is used. -/
theorem use (hscopes : Forall₂ (Node.Twins ρ r r') scopes scopes') (hname : name ≠ ρ.new) (mark : Mark) :
    Renamed ρ imports r r'
      { x with
        mentions := ⟨mark.id, name, scope? scopes name, false⟩ :: x.mentions,
        events := .use ⟨mark, name, scopesEnv primitives scopes⟩ :: x.events }
      { x' with
        mentions := ⟨mark.id, ρ.apply (scope? scopes name) name,
          scope? scopes' (ρ.apply (scope? scopes name) name), false⟩ :: x'.mentions,
        events := .use ⟨mark, ρ.apply (scope? scopes name) name, scopesEnv primitives scopes'⟩ :: x'.events } := by
  refine ⟨h.marks, ?_, .cons (.use rfl (meaning?_twins primitives imports hscopes hname) fun _ _ => rfl) h.events⟩
  rw [scope?_renames (hscopes.imp fun _ _ hn => hn.renames) hname, map_cons, h.mentions]
  rfl

end Seen.Renamed

variable (primitives : Primitives) (imports : Imports)

/-- What is seen of a box. -/
def seenBox (scopes : List Node) (b : Box) : Seen :=
  ⟨b.nodes, b.mentions scopes, events (scopesEnv primitives scopes) b⟩

/-- What is seen of boxes. -/
def seenBoxes (scopes : List Node) (bs : List Box) : Seen :=
  ⟨Box.nodesAll bs, Box.mentionsAll scopes bs, eventsAll (scopesEnv primitives scopes) bs⟩

/-- What is seen of the arguments of an iteration. -/
def seenIteration (opener : Node) (scopes : List Node) (args : List Box) : Seen :=
  ⟨Box.nodesAll args, Box.mentionsIteration opener scopes args, iterationEvents (scopesEnv primitives scopes) args⟩

/-- What is seen of a definition. -/
def seenDefinition (opener : Nat) (scopes : List Node) (d : Definition) : Seen :=
  ⟨d.nodes, d.mentions opener scopes, definitionEvents (scopesEnv primitives scopes) d⟩

/-- What is seen of definitions. -/
def seenDefinitions (opener : Nat) (scopes : List Node) (ds : List Definition) : Seen :=
  ⟨Definition.nodesAll ds, Definition.mentionsAll opener scopes ds, definitionsEvents (scopesEnv primitives scopes) ds⟩

mutual

theorem renamed_box (b : Box) (scopes scopes' : List Node) (h : Forall₂ (Node.Twins ρ r r') scopes scopes')
    (hm : Suits ρ r (b.mentions scopes)) :
    (seenBox primitives scopes b).Renamed ρ imports r r' (seenBox primitives scopes' (b.rename ρ scopes)) := by
  cases b with
  | ref mark name => exact .node (.use .nil h (hm.fresh _ mem_cons_self) mark) rfl
  | number | string => exact .node .nil rfl
  | compose mark op left right =>
    rw [Box.mentions] at hm
    exact ((renamed_box left scopes scopes' h hm.left).append (renamed_box right scopes scopes' h hm.right)).node rfl
  | block mark body locals =>
    rw [Box.mentions] at hm
    have htwins := Node.twins_block r' body (body.rename ρ (.box (.block mark body locals) :: scopes)) hm.right
    have hbody := renamed_box body _ _ (.cons htwins h) hm.left
    have hlocals := renamed_definitions locals mark.id _ _ (.cons htwins h) hm.right
    exact ((hbody.append hlocals).enter (entriesRenamed_definitions hm.right.fresh)).node rfl
  | call mark name args =>
    rw [Box.mentions] at hm
    have hname : name ≠ ρ.new := hm.fresh _ mem_cons_self
    have hrenames := h.imp fun _ _ hn => hn.renames
    unfold seenBox
    rw [Box.rename, events, events, isIteration_scopesEnv, isIteration_scopesEnv, Box.mentions, Box.mentions]
    -- Whether the call opens a scope is the same before and after.
    cases hiter : iterates scopes name args with
    | true =>
      rw [if_pos hiter] at hm
      simp only [if_true, iterates_renames hrenames hname (areIterated_renameIteration _ args), hiter]
      exact ((renamed_iteration args mark name args rfl (Bool.and_eq_true_iff.mp hiter).1
        scopes scopes' h hm.tail).use h hname mark).node rfl
    | false =>
      rw [hiter] at hm
      simp only [Bool.false_eq_true, if_false, iterates_renames hrenames hname (areIterated_renameAll args), hiter]
      exact ((renamed_boxes args scopes scopes' h hm.tail).use h hname mark).node rfl

theorem renamed_boxes (bs : List Box) (scopes scopes' : List Node) (h : Forall₂ (Node.Twins ρ r r') scopes scopes')
    (hm : Suits ρ r (Box.mentionsAll scopes bs)) :
    (seenBoxes primitives scopes bs).Renamed ρ imports r r'
      (seenBoxes primitives scopes' (Box.renameAll ρ scopes bs)) := by
  cases bs with
  | nil => exact .nil
  | cons b rest =>
    rw [Box.mentionsAll] at hm
    exact (renamed_box b scopes scopes' h hm.left).append (renamed_boxes rest scopes scopes' h hm.right)

theorem renamed_iteration (args : List Box) (mark : Mark) (name : String) (whole : List Box) (hwhole : whole = args)
    (hargs : areIterated args) (scopes scopes' : List Node) (h : Forall₂ (Node.Twins ρ r r') scopes scopes')
    (hm : Suits ρ r (Box.mentionsIteration (.box (.call mark name whole)) scopes args)) :
    (seenIteration primitives (.box (.call mark name whole)) scopes args).Renamed ρ imports r r'
      (seenIteration primitives (.box (.call mark (ρ.apply (scope? scopes name) name)
        (Box.renameIteration ρ (.box (.call mark name whole)) scopes args))) scopes'
        (Box.renameIteration ρ (.box (.call mark name whole)) scopes args)) := by
  match args with
  | [] | [_] | [_, _] | _ :: _ :: _ :: _ :: _ => simp [areIterated] at hargs
  | [binder, count, body] =>
    cases binder with
    | number | string | call | compose | block => simp [areIterated] at hargs
    | ref variableMark variableName =>
      subst hwhole
      have htwins := Node.twins_iteration r r' (ρ.apply (scope? scopes name) name) hargs hm.fresh
      rw [Box.mentionsIteration] at hm
      -- The count stands outside of the scope of the variable, the body inside.
      have hcount := renamed_box count scopes scopes' h hm.right.left
      have hbody := renamed_box body _ _ (.cons htwins h) hm.right.right
      have hparts := (hcount.append hbody).bind variableMark.id mark.id [variableName]
      refine ⟨?_, hparts.mentions, hparts.events⟩
      have hmarks := hparts.marks
      simp only [seenIteration, Box.renameIteration, Box.nodesAll, append_nil]
      exact congrArg₂ List.cons rfl hmarks

theorem renamed_definition (d : Definition) (opener : Nat) (scopes scopes' : List Node)
    (h : Forall₂ (Node.Twins ρ r r') scopes scopes') (hm : Suits ρ r (d.mentions opener scopes)) :
    (seenDefinition primitives opener scopes d).Renamed ρ imports r r'
      (seenDefinition primitives opener scopes' (d.rename ρ opener scopes)) := by
  have htwins := Node.twins_definition r r' hm.fresh
  match d with
  | ⟨mark, name, params, none, stop⟩ =>
    have hbound : Seen.Renamed ρ imports r r' _ _ :=
      (Seen.Renamed.nil.bind mark.id mark.id params).bind mark.id opener [name]
    simp only [append_nil] at hbound
    exact hbound.node rfl
  | ⟨mark, name, params, some body, stop⟩ =>
    rw [Definition.mentions] at hm
    rw [Definition.rename] at htwins ⊢
    have hbody := renamed_box body _ _ (.cons htwins h) hm.tail.right
    have hbound := (hbody.bind mark.id mark.id params).bind mark.id opener [name]
    unfold seenDefinition
    rw [definitionEvents, definitionEvents]
    split
    · exact ⟨(hbound.node rfl).marks, hbound.mentions, .nil⟩
    · have hnew : ρ.new ∉ params := by
        have hfresh := htwins.renames.fresh
        rwa [Node.names_definition] at hfresh
      exact (hbound.enter (entriesRenamed_parameters mark.id mark.position hnew)).node rfl

theorem renamed_definitions (ds : List Definition) (opener : Nat) (scopes scopes' : List Node)
    (h : Forall₂ (Node.Twins ρ r r') scopes scopes') (hm : Suits ρ r (Definition.mentionsAll opener scopes ds)) :
    (seenDefinitions primitives opener scopes ds).Renamed ρ imports r r'
      (seenDefinitions primitives opener scopes' (Definition.renameAll ρ opener scopes ds)) := by
  cases ds with
  | nil => exact .nil
  | cons d rest =>
    rw [Definition.mentionsAll] at hm
    exact (renamed_definition d opener scopes scopes' h hm.left).append
      (renamed_definitions rest opener scopes scopes' h hm.right)

end

/-- A renaming changes no mark and exchanges the names of mentions, whose scopes stay, and the events are alike. -/
theorem renamed_program (r' : Resolution) (hm : Suits ρ r p.mentions) :
    Seen.Renamed ρ imports r r' ⟨p.nodes, p.mentions, programEvents primitives p⟩
      ⟨(p.rename ρ).nodes, (p.rename ρ).mentions, programEvents primitives (p.rename ρ)⟩ := by
  have htwins : Forall₂ (Node.Twins ρ r r') [.program p] [.program (p.rename ρ)] := .cons (Node.twins_program hm) .nil
  have hdefinitions := renamed_definitions primitives imports p.definitions _ _ _ htwins hm
  have hentered := hdefinitions.enter (entriesRenamed_definitions hm.fresh)
  refine ⟨?_, hentered.mentions, hentered.events⟩
  have hmarks : map Node.mark _ = map Node.mark _ := hdefinitions.marks
  simp only [Program.nodes, Program.rename, map_cons, map_append]
  exact congrArg (fun ms => _ :: (_ ++ _ ++ ms)) hmarks

end Lexical

/-- A program and the renamed program have alike resolutions, and the same is reported about their names at the same
places. -/
theorem Program.alike_resolve_rename (primitives : Primitives) (available : Libraries)
    (hm : Lexical.Suits ρ (p.resolve primitives available).1 p.mentions) :
    (p.resolve primitives available).1.Alike .unnamed ((p.rename ρ).resolve primitives available).1
      ∧ ((p.rename ρ).resolve primitives available).2.map Finding.summary
        = (p.resolve primitives available).2.map Finding.summary := by
  have hserve := serve_kept available p
  have hrecords := records_program primitives hserve
  have hrecords' := records_program (p := p.rename ρ) primitives hserve
  have hevents := (renamed_program primitives (Lexical.Imports.kept available p)
    ((p.rename ρ).resolve primitives available).1 hm).events
  constructor
  · intro id _
    show Option.Rel _ ((programStop primitives available p).bindings.get? id)
      ((programStop primitives available (p.rename ρ)).bindings.get? id)
    rw [hrecords.bindings, hrecords'.bindings]
    exact Lexical.BoundAlike.foldl hevents (.empty _) id
  · show (programStop primitives available (p.rename ρ)).findings.map Finding.summary
      = (programStop primitives available p).findings.map Finding.summary
    rw [hrecords.findings, hrecords'.findings, map_append, map_append]
    exact congrArg _ (forall₂_map_eq_iff.mp (findings_alike _ hevents))

end Patchbay
