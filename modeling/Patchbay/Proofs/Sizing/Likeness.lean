import Patchbay.Constant
import Patchbay.Proofs.Sizing.DelaySearch

/-!
# Programs that are alike

Two boxes are alike when they differ in names only, and in what stands in invalid definitions. A view says how names are
shown, and the names that a message can hold are shown alike. A call that is bound to something built in has the same
name in both. The symbols that two resolutions give to alike boxes are alike in turn: they agree in all but their names,
and their definitions are alike. What the resolutions say about nodes that are not viewed does not matter.

What stands in invalid definitions is not bound, so it does not lead to a delay. Constants and delays are then the same
for both resolutions.
-/

open List

namespace Patchbay

section

variable {α β : Type} {R : α → β → Prop} {o : Option α} {o' : Option β}

theorem rel_swap {S : β → α → Prop} (hRS : ∀ a b, R a b → S b a) (h : Option.Rel R o o') : Option.Rel S o' o := by
  cases h with
  | none => exact .none
  | some h => exact .some (hRS _ _ h)

theorem exists_of_rel_some {a : α} (h : Option.Rel R (some a) o') : ∃ b, o' = some b ∧ R a b := by
  cases h with
  | some h => exact ⟨_, rfl, h⟩

theorem eq_none_of_rel_none (h : Option.Rel R none o') : o' = none := by
  cases h
  rfl

end

/-! ## Bounds -/

variable {b x b' : Box} {fuel : Nat} {name' : String} {seen : List Nat} {kind : SymbolKind}

namespace Resolution

variable {r : Resolution}

/-- The bound names that were not visited yet. -/
def unvisited (r : Resolution) (seen : List Nat) : List Nat := r.bindings.keys.filter fun key => !seen.contains key

theorem unvisited_lt {id : Nat} (hid : id ∈ r.bindings.keys) (hnew : seen.contains id = false) :
    (r.unvisited (id :: seen)).length < (r.unvisited seen).length := by
  have hfilter : r.unvisited (id :: seen) = (r.unvisited seen).filter fun key => !(key == id) := by
    unfold unvisited
    rw [filter_filter]
    refine filter_congr fun key _ => ?_
    rw [contains_cons, Bool.not_or]
  rw [hfilter, length_filter_lt_length_iff_exists]
  refine ⟨id, mem_filter.mpr ⟨hid, by rw [hnew]; rfl⟩, ?_⟩
  simp

/-- With more fuel than there are names to visit the search has an outcome, and always the same. -/
theorem exists_constantFrom (r : Resolution) (seen : List Nat) (b : Box) :
    ∃ outcome, ∀ fuel, (r.unvisited seen).length < fuel → r.constantFrom fuel seen b = some outcome := by
  -- Each name that leads on is one less to visit.
  induction hn : (r.unvisited seen).length using Nat.strongRecOn generalizing seen b with
  | ind n ih =>
    subst hn
    suffices h : ∃ outcome, ∀ fuel, (r.unvisited seen).length ≤ fuel →
        r.constantFrom (fuel + 1) seen b = some outcome by
      obtain ⟨outcome, h⟩ := h
      refine ⟨outcome, fun fuel hfuel => ?_⟩
      obtain ⟨fuel, rfl⟩ := Nat.exists_eq_add_one_of_ne_zero (Nat.ne_zero_of_lt hfuel)
      exact h fuel (Nat.le_of_lt_succ hfuel)
    unfold constantFrom
    cases hseen : seen.contains b.id with
    | true => exact ⟨none, fun _ _ => rfl⟩
    | false =>
      cases b with
      | number mark value text => exact ⟨some value, fun _ _ => rfl⟩
      | string | call | compose | block => exact ⟨none, fun _ _ => rfl⟩
      | ref mark name =>
        dsimp only
        cases halias : r.alias? mark.id with
        | none => exact ⟨none, fun _ _ => rfl⟩
        | some body =>
          have hbound : mark.id ∈ r.bindings.keys := by
            rw [Table.mem_keys_iff]
            cases hsymbol : r.symbol? mark.id with
            | none => simp [alias?, hsymbol] at halias
            | some symbol => exact ⟨symbol, hsymbol⟩
          have hvisit := unvisited_lt hbound hseen
          obtain ⟨outcome, houtcome⟩ := ih _ hvisit (mark.id :: seen) body rfl
          exact ⟨outcome, fun fuel hfuel => houtcome fuel (by omega)⟩

/-- The search for a constant ends, and more fuel changes nothing. -/
theorem constantFrom_eq_some (hfuel : r.bindings.size < fuel) : r.constantFrom fuel [] b = some (r.constant? b) := by
  obtain ⟨outcome, h⟩ := exists_constantFrom r [] b
  have hsize : (r.unvisited []).length ≤ r.bindings.size := (length_filter_le _ _).trans_eq (length_map _)
  rw [h fuel (Nat.lt_of_le_of_lt hsize hfuel), constant?, h _ (Nat.lt_succ_of_le hsize), Option.join_some]

end Resolution

/-- Nothing in a box is bound. -/
def Resolution.Inert (r : Resolution) (b : Box) : Prop := ∀ n ∈ b.nodes, r.symbol? n.mark.id = none

/-! ## Likeness -/

/-- How two programs are looked at: how their names are shown, and the numbers of which nodes are viewed. -/
structure View where
  shown : String → String
  within : Nat → Prop

/-- All nodes are viewed. -/
def View.whole (shown : String → String) : View := ⟨shown, fun _ => True⟩

/-- Whether a symbol is built in. -/
def Symbol.isBuiltin (s : Symbol) : Bool := s.kind == .primitive || s.kind == .ui

/-- A call is viewed, and its names are shown alike. Where it is bound to something built in they are the same. -/
structure Resolution.CallsAlike (v : View) (r : Resolution) (id : Nat) (name name' : String) : Prop where
  within : v.within id
  shown : v.shown name' = v.shown name
  builtin : (r.symbol? id).any Symbol.isBuiltin = true → name' = name

mutual

/-- The boxes differ in names and in what stands in invalid definitions. -/
inductive Box.Alike (v : View) (r r' : Resolution) : Box → Box → Prop where
  | ref {mark : Mark} (hid : v.within mark.id) (name name' : String) :
    Box.Alike v r r' (.ref mark name) (.ref mark name')
  | number (mark : Mark) (value : Binary64) (text : String) :
    Box.Alike v r r' (.number mark value text) (.number mark value text)
  | string (mark : Mark) (value : String) : Box.Alike v r r' (.string mark value) (.string mark value)
  | call {mark : Mark} {name name' : String} {args args' : List Box}
    (hname : r.CallsAlike v mark.id name name') (hargs : Forall₂ (Box.Alike v r r') args args') :
    Box.Alike v r r' (.call mark name args) (.call mark name' args')
  | compose {mark : Mark} {op : Operator} {left left' right right' : Box} (hleft : Box.Alike v r r' left left')
    (hright : Box.Alike v r r' right right') :
    Box.Alike v r r' (.compose mark op left right) (.compose mark op left' right')
  | block {mark : Mark} {body body' : Box} {locals locals' : List Definition} (hbody : Box.Alike v r r' body body')
    (hlocals : Forall₂ (Definition.Alike v r r') locals locals') :
    Box.Alike v r r' (.block mark body locals) (.block mark body' locals')

/-- The definitions differ in names and in what stands in invalid ones, where nothing is bound. -/
inductive Definition.Alike (v : View) (r r' : Resolution) : Definition → Definition → Prop where
  | invalid {mark : Mark} {name name' : String} {params params' : List String} {body body' : Option Box}
    {stop stop' : Position} (hinvalid : mark.invalid = true) (hname : v.shown name' = v.shown name)
    (hbody : ∀ b, body = some b → r.Inert b) (hbody' : ∀ b, body' = some b → r'.Inert b) :
    Definition.Alike v r r' ⟨mark, name, params, body, stop⟩ ⟨mark, name', params', body', stop'⟩
  | valid {mark : Mark} {name name' : String} {params params' : List String} {body body' : Option Box}
    {stop stop' : Position} (hname : v.shown name' = v.shown name) (hparams : params'.length = params.length)
    (hbody : Option.Rel (Box.Alike v r r') body body') :
    Definition.Alike v r r' ⟨mark, name, params, body, stop⟩ ⟨mark, name', params', body', stop'⟩

end

/-- The symbols differ in their names, and their definitions are alike. -/
structure Symbol.Alike (v : View) (r r' : Resolution) (s s' : Symbol) : Prop where
  kind : s'.kind = s.kind
  arity : s'.arity = s.arity
  delay : s'.delay = s.delay
  definition : Option.Rel (Definition.Alike v r r') s.definition s'.definition

/-- The resolutions give every node that is viewed symbols that are alike. -/
def Resolution.Alike (v : View) (r r' : Resolution) : Prop :=
  ∀ id, v.within id → Option.Rel (Symbol.Alike v r r') (r.symbol? id) (r'.symbol? id)

variable {v : View} {r r' : Resolution}

theorem Box.Alike.mark (h : b.Alike v r r' b') : b'.mark = b.mark := by
  cases h <;> rfl

namespace Definition.Alike

variable {d d' : Definition}

variable (h : d.Alike v r r' d')

include h

theorem mark : d'.mark = d.mark := by
  cases h <;> rfl

theorem id : d'.id = d.id := congrArg Mark.id h.mark

theorem name : v.shown d'.name = v.shown d.name := by
  cases h <;> assumption

theorem validBody? : Option.Rel (Box.Alike v r r') d.validBody? d'.validBody? := by
  unfold Definition.validBody? Definition.invalid
  cases h with
  | invalid hinvalid =>
    simp only [hinvalid, if_true]
    exact .none
  | valid _ _ hbody =>
    split
    · exact .none
    · exact hbody

theorem params_length (hvalid : d.invalid = false) : d'.params.length = d.params.length := by
  cases h with
  | invalid hinvalid => exact absurd (hinvalid.symm.trans hvalid) (by simp)
  | valid _ hparams => exact hparams

theorem body (hvalid : d.invalid = false) : Option.Rel (Box.Alike v r r') d.body d'.body := by
  cases h with
  | invalid hinvalid => exact absurd (hinvalid.symm.trans hvalid) (by simp)
  | valid _ _ hbody => exact hbody

/-- The body of a definition holds nothing that is bound, or there is one that is alike. -/
theorem inert_or_body {body : Box} (hbody : d.body = some body) :
    r.Inert body ∨ ∃ body', d'.body = some body' ∧ body.Alike v r r' body' := by
  cases h with
  | invalid _ _ hinert => exact .inl (hinert body hbody)
  | valid _ _ hrel =>
    subst hbody
    cases hrel with
    | some halike => exact .inr ⟨_, rfl, halike⟩

end Definition.Alike

/-- A call that is bound to something built in has the same name. -/
theorem Resolution.CallsAlike.eq_of_any_kind {id : Nat} {name : String} (hname : r.CallsAlike v id name name')
    (hkind : kind = .primitive ∨ kind = .ui) (hany : (r.symbol? id).any (·.kind == kind)) : name' = name := by
  obtain ⟨symbol, hsymbol, hsame⟩ := (Option.any_eq_true _ _).mp hany
  refine hname.builtin ?_
  rw [hsymbol, Option.any_some, Symbol.isBuiltin, eq_of_beq hsame]
  rcases hkind with rfl | rfl <;> rfl

namespace Resolution.Alike

/-- What two resolutions give to a node: nothing, or symbols that are alike. -/
theorem unbound_or_alike (h : r.Alike v r') {id : Nat} (hid : v.within id) :
    (r.symbol? id = none ∧ r'.symbol? id = none)
      ∨ ∃ s s', r.symbol? id = some s ∧ r'.symbol? id = some s' ∧ s.Alike v r r' s' := by
  have hsymbol := h id hid
  revert hsymbol
  generalize r.symbol? id = o, r'.symbol? id = o'
  intro hsymbol
  cases hsymbol with
  | none => exact .inl ⟨rfl, rfl⟩
  | some hs => exact .inr ⟨_, _, rfl, rfl, hs⟩

/-- What is asked about the kind of a symbol has the same answer. -/
theorem any_kind (h : r.Alike v r') {id : Nat} (hid : v.within id) (P : SymbolKind → Bool) :
    ((r'.symbol? id).any fun s => P s.kind) = (r.symbol? id).any fun s => P s.kind := by
  obtain ⟨hs, hs'⟩ | ⟨s, s', hs, hs', hlike⟩ := h.unbound_or_alike hid
  · rw [hs, hs']
  · rw [hs, hs', Option.any_some, Option.any_some, hlike.kind]

end Resolution.Alike

/-- A node is alike itself if all of it is viewed. -/
theorem Node.alike_self (n : Node) (hn : ∀ m ∈ n.nodes, v.within m.mark.id) :
    (∀ b, n = .box b → b.Alike v r r' b) ∧ ∀ d, n = .definition d → d.Alike v r r' d := by
  induction n using Node.induct with
  | h n ih =>
    have hself := hn n n.mem_nodes
    have hparts (m : Node) (hm : m ∈ n.children) := ih m hm fun k hk =>
      hn k (n.partsIn_nodes.nodes_subset m (n.partsIn_nodes n n.mem_nodes m hm) hk)
    constructor
    · rintro b rfl
      cases b with
      | ref => exact .ref hself ..
      | number => exact .number ..
      | string => exact .string ..
      | call mark name args =>
        refine .call ⟨hself, rfl, fun _ => rfl⟩ (forall₂_same.mpr fun b hb => ?_)
        exact (hparts (.box b) (mem_map_of_mem hb)).1 b rfl
      | compose mark op left right =>
        exact .compose ((hparts _ mem_cons_self).1 left rfl)
          ((hparts _ (mem_cons_of_mem _ mem_cons_self)).1 right rfl)
      | block mark body locals =>
        refine .block ((hparts _ mem_cons_self).1 body rfl) (forall₂_same.mpr fun d hd => ?_)
        exact (hparts (.definition d) (mem_cons_of_mem _ (mem_map_of_mem hd))).2 d rfl
    · rintro ⟨mark, name, params, body, stop⟩ rfl
      refine .valid rfl rfl ?_
      cases body with
      | none => exact .none
      | some body => exact .some ((hparts _ mem_cons_self).1 body rfl)

/-- Two resolutions that give every node the same symbol are alike. -/
theorem Resolution.alike_of_symbol?_eq (h : ∀ id, r'.symbol? id = r.symbol? id) : r.Alike (.whole id) r' := by
  intro id _
  rw [h]
  cases r.symbol? id with
  | none => exact .none
  | some s =>
    refine .some ⟨rfl, rfl, rfl, ?_⟩
    cases s.definition with
    | none => exact .none
    | some d => exact .some (((Node.definition d).alike_self fun _ _ => trivial).2 d rfl)

theorem Resolution.CallsAlike.symm (hr : r.Alike v r') {id : Nat} {name : String} (h : r.CallsAlike v id name name') :
    r'.CallsAlike v id name' name :=
  ⟨h.within, h.shown.symm, fun hany =>
    (h.builtin ((hr.any_kind h.within fun kind => kind == .primitive || kind == .ui).symm.trans hany)).symm⟩

mutual

theorem Box.Alike.symm (hr : r.Alike v r') {b b' : Box} (h : b.Alike v r r' b') : b'.Alike v r' r b := by
  match b, h with
  | .ref _ _, .ref hid .. => exact .ref hid ..
  | .number _ _ _, .number .. => exact .number ..
  | .string _ _, .string .. => exact .string ..
  | .call _ _ args, .call hname hargs => exact .call (hname.symm hr) (Box.Alike.symmAll hr hargs)
  | .compose _ _ left right, .compose hleft hright =>
    exact .compose (Box.Alike.symm hr hleft) (Box.Alike.symm hr hright)
  | .block _ body locals, .block hbody hlocals =>
    exact .block (Box.Alike.symm hr hbody) (Definition.Alike.symmAll hr hlocals)
termination_by structural b

theorem Box.Alike.symmAll (hr : r.Alike v r') {bs bs' : List Box}
    (h : Forall₂ (Box.Alike v r r') bs bs') : Forall₂ (Box.Alike v r' r) bs' bs := by
  match bs, h with
  | [], .nil => exact .nil
  | _ :: _, .cons hfirst hrest => exact .cons (Box.Alike.symm hr hfirst) (Box.Alike.symmAll hr hrest)
termination_by structural bs

theorem Definition.Alike.symm (hr : r.Alike v r') {d d' : Definition} (h : d.Alike v r r' d') : d'.Alike v r' r d := by
  match d, h with
  | ⟨_, _, _, _, _⟩, .invalid hinvalid hname hbody hbody' => exact .invalid hinvalid hname.symm hbody' hbody
  | ⟨_, _, _, none, _⟩, .valid hname hparams .none => exact .valid hname.symm hparams.symm .none
  | ⟨_, _, _, some body, _⟩, .valid hname hparams (.some hbody) =>
    exact .valid hname.symm hparams.symm (.some (Box.Alike.symm hr hbody))
termination_by structural d

theorem Definition.Alike.symmAll (hr : r.Alike v r') {ds ds' : List Definition}
    (h : Forall₂ (Definition.Alike v r r') ds ds') : Forall₂ (Definition.Alike v r' r) ds' ds := by
  match ds, h with
  | [], .nil => exact .nil
  | _ :: _, .cons hfirst hrest => exact .cons (Definition.Alike.symm hr hfirst) (Definition.Alike.symmAll hr hrest)
termination_by structural ds

end

theorem Symbol.Alike.symm (hr : r.Alike v r') {s s' : Symbol} (h : s.Alike v r r' s') : s'.Alike v r' r s :=
  ⟨h.kind.symm, h.arity.symm, h.delay.symm, rel_swap (fun _ _ hd => hd.symm hr) h.definition⟩

namespace Resolution.Alike

variable (h : r.Alike v r')

include h

theorem symm : r'.Alike v r :=
  fun id hid => rel_swap (fun _ _ hs => hs.symm h) (h id hid)

/-- What is asked about the name of a call that is bound to something built in has the same answer. -/
theorem and_any_kind {id : Nat} {name : String} (hname : r.CallsAlike v id name name')
    (hkind : kind = .primitive ∨ kind = .ui) (P : String → Bool) :
    (P name' && (r'.symbol? id).any (·.kind == kind)) = (P name && (r.symbol? id).any (·.kind == kind)) := by
  rw [h.any_kind hname.within (· == kind)]
  cases hany : (r.symbol? id).any (·.kind == kind) with
  | false => rw [Bool.and_false, Bool.and_false]
  | true => rw [hname.eq_of_any_kind hkind hany]

theorem userDefinition? {id : Nat} (hid : v.within id) :
    Option.Rel (Definition.Alike v r r') (r.userDefinition? id) (r'.userDefinition? id) := by
  unfold Resolution.userDefinition?
  obtain ⟨hs, hs'⟩ | ⟨s, s', hs, hs', hlike⟩ := h.unbound_or_alike hid
  · rw [hs, hs']
    exact .none
  · rw [hs, hs']
    dsimp only
    rw [hlike.kind]
    split
    · exact hlike.definition
    · exact .none

/-! ## Constants -/

theorem alias? {id : Nat} (hid : v.within id) : Option.Rel (Box.Alike v r r') (r.alias? id) (r'.alias? id) := by
  unfold Resolution.alias?
  obtain ⟨hs, hs'⟩ | ⟨s, s', hs, hs', hlike⟩ := h.unbound_or_alike hid
  · rw [hs, hs']
    exact .none
  · rw [hs, hs']
    dsimp only
    have hdefinition := hlike.definition
    revert hdefinition
    generalize s.definition = o, s'.definition = o'
    intro hdefinition
    cases hdefinition with
    | none => exact .none
    | @some d d' hd =>
      dsimp only
      cases hinvalid : d.invalid with
      | true =>
        -- An invalid definition stands for nothing, whatever its parameters are.
        have hnone : d.validBody? = none := if_pos hinvalid
        have hnone' : d'.validBody? = none := if_pos ((congrArg Mark.invalid hd.mark).trans hinvalid)
        rw [hnone, hnone', ite_self, ite_self]
        exact .none
      | false =>
        have hempty : d'.params.isEmpty = d.params.isEmpty := by
          rw [Bool.eq_iff_iff, isEmpty_iff_length_eq_zero, isEmpty_iff_length_eq_zero,
            hd.params_length hinvalid]
        rw [hempty]
        split
        · exact hd.validBody?
        · exact .none

theorem constantFrom (fuel : Nat) (seen : List Nat) (hb : b.Alike v r r' b') :
    r'.constantFrom fuel seen b' = r.constantFrom fuel seen b := by
  induction fuel generalizing seen b b' with
  | zero => rfl
  | succ fuel ih =>
    cases hb with
    | @ref mark hid name name' =>
      simp only [Resolution.constantFrom]
      have halias := h.alias? hid
      revert halias
      generalize r.alias? mark.id = o, r'.alias? mark.id = o'
      intro halias
      cases halias with
      | none => rfl
      | some hbody =>
        simp only [ih _ hbody]
        rfl
    | number | string => rfl
    | call | compose | block =>
      rfl

/-- Boxes that are alike are the same constant. -/
theorem constant? (hb : b.Alike v r r' b') : r'.constant? b' = r.constant? b := by
  -- Both are bounded by what the two bind together.
  have houtcome := h.constantFrom (r.bindings.size + r'.bindings.size + 1) [] hb
  rw [constantFrom_eq_some (by omega), constantFrom_eq_some (by omega)] at houtcome
  exact Option.some.inj houtcome

end Resolution.Alike

/-! ## Delays -/

/-- The name in a box is viewed in both. -/
theorem Box.Alike.nameId? (h : b.Alike v r r' b') :
    b'.nameId? = b.nameId? ∧ ∀ id, b.nameId? = some id → v.within id := by
  cases h with
  | ref hid => exact ⟨rfl, fun _ h => Option.some.inj h ▸ hid⟩
  | call hname => exact ⟨rfl, fun _ h => Option.some.inj h ▸ hname.within⟩
  | number | string | compose | block => exact ⟨rfl, by simp [Box.nameId?]⟩

namespace Delay

theorem referred?_of_inert (hb : r.Inert b) : referred? r b = none := by
  have hself := hb (.box b) b.mem_nodes
  cases b with
  | ref | call =>
    simp only [Node.mark, Box.mark] at hself
    simp [referred?, Box.nameId?, Resolution.userDefinition?, hself]
  | number | string | compose | block => rfl

theorem isDelay_of_inert (hb : r.Inert b) : isDelay r b = false := by
  have hself := hb (.box b) b.mem_nodes
  cases b with
  | ref | call =>
    simp only [Node.mark, Box.mark] at hself
    simp [isDelay, Box.nameId?, hself]
  | number | string | compose | block => rfl

/-- The nodes of a part of a box are nodes of the box. -/
theorem nodes_subset_of_mem_parts (h : x ∈ b.parts) : x.nodes ⊆ b.nodes := by
  have hparts := b.partsIn_nodes
  have hchildren := hparts (.box b) b.mem_nodes
  refine hparts.nodes_box x ?_
  cases b with
  | ref | number | string => cases h
  | call mark name args => exact hchildren _ (mem_map_of_mem h)
  | compose mark op left right => exact hchildren _ (mem_map_of_mem (f := Node.box) h)
  | block mark body locals =>
    rcases mem_cons.mp h with rfl | h
    · exact hchildren _ mem_cons_self
    · obtain ⟨d, hd, hbody⟩ := mem_filterMap.mp h
      have hlocal := hchildren _ (mem_cons_of_mem _ (mem_map_of_mem hd))
      exact hparts _ hlocal _ (by simp [Node.children, hbody])

/-- An unbound box does not lead to a delay. -/
theorem not_contains_of_inert (hb : r.Inert b) : ¬ Contains r b := by
  rintro ⟨x, hreach, hdelay⟩
  induction hreach with
  | refl b => exact absurd (hdelay.symm.trans (isDelay_of_inert hb)) (by simp)
  | step hleads _ ih =>
    cases hleads with
    | part hx => exact ih (fun n hn => hb n (nodes_subset_of_mem_parts hx hn)) hdelay
    | follow hd _ => exact absurd (hd.symm.trans (referred?_of_inert hb)) (by simp)

theorem exists_of_mem_forall₂ {α β : Type} {R : α → β → Prop} {l : List α} {l' : List β} (h : Forall₂ R l l')
    {x : α} (hx : x ∈ l) : ∃ y ∈ l', R x y := by
  induction h with
  | nil => cases hx
  | cons hfirst _ ih =>
    rcases mem_cons.mp hx with rfl | hx
    · exact ⟨_, mem_cons_self, hfirst⟩
    · obtain ⟨y, hy, hR⟩ := ih hx
      exact ⟨y, mem_cons_of_mem _ hy, hR⟩

/-- A part of a box holds nothing that is bound, or a box that is alike has a part that is alike. -/
theorem inert_or_part (hb : b.Alike v r r' b') (hx : x ∈ b.parts) : r.Inert x ∨ ∃ x' ∈ b'.parts, x.Alike v r r' x' := by
  cases hb with
  | ref | number | string => cases hx
  | call _ hargs => exact .inr (exists_of_mem_forall₂ hargs hx)
  | compose hleft hright => exact .inr (exists_of_mem_forall₂ (.cons hleft (.cons hright .nil)) hx)
  | block hbody hlocals =>
    rcases mem_cons.mp hx with rfl | hx
    · exact .inr ⟨_, mem_cons_self, hbody⟩
    · obtain ⟨d, hd, hdbody⟩ := mem_filterMap.mp hx
      obtain ⟨d', hd', hlike⟩ := exists_of_mem_forall₂ hlocals hd
      rcases hlike.inert_or_body hdbody with hinert | ⟨body', hbody', hx'⟩
      · exact .inl hinert
      · exact .inr ⟨body', mem_cons_of_mem _ (mem_filterMap.mpr ⟨d', hd', hbody'⟩), hx'⟩

theorem referred?_alike (h : r.Alike v r') (hb : b.Alike v r r' b') :
    Option.Rel (Definition.Alike v r r') (referred? r b) (referred? r' b') := by
  obtain ⟨hname, hwithin⟩ := hb.nameId?
  unfold referred?
  rw [hname]
  cases hid : b.nameId? with
  | none => exact .none
  | some id => exact h.userDefinition? (hwithin id hid)

/-- What a box leads to holds nothing that is bound, or a box that is alike leads to one that is alike. -/
theorem inert_or_leads (h : r.Alike v r') (hb : b.Alike v r r' b') (hleads : Leads r b x) :
    r.Inert x ∨ ∃ x', Leads r' b' x' ∧ x.Alike v r r' x' := by
  cases hleads with
  | part hx =>
    rcases inert_or_part hb hx with hinert | ⟨x', hx', hlike⟩
    · exact .inl hinert
    · exact .inr ⟨x', .part hx', hlike⟩
  | follow hd hbody =>
    have hreferred := referred?_alike h hb
    rw [hd] at hreferred
    obtain ⟨d', hd', hlike⟩ := exists_of_rel_some hreferred
    rcases hlike.inert_or_body hbody with hinert | ⟨body', hbody', hx⟩
    · exact .inl hinert
    · exact .inr ⟨body', .follow hd' hbody', hx⟩

theorem isDelay_alike (h : r.Alike v r') (hb : b.Alike v r r' b') : isDelay r' b' = isDelay r b := by
  obtain ⟨hname, hwithin⟩ := hb.nameId?
  unfold isDelay
  rw [hname]
  cases hid : b.nameId? with
  | none => rfl
  | some id =>
    dsimp only
    obtain ⟨hs, hs'⟩ | ⟨s, s', hs, hs', hlike⟩ := h.unbound_or_alike (hwithin id hid)
    · rw [hs, hs']
    · rw [hs, hs', Option.any_some, Option.any_some, Symbol.delays, Symbol.delays, hlike.kind, hlike.arity, hlike.delay]

theorem contains_of_alike (h : r.Alike v r') (hb : b.Alike v r r' b') (hcontains : Contains r b) : Contains r' b' := by
  obtain ⟨x, hreach, hdelay⟩ := hcontains
  induction hreach generalizing b' with
  | refl b => exact ⟨b', .refl b', (isDelay_alike h hb).trans hdelay⟩
  | step hleads hrest ih =>
    rcases inert_or_leads h hb hleads with hinert | ⟨x', hleads', hx⟩
    · exact absurd ⟨_, hrest, hdelay⟩ (not_contains_of_inert hinert)
    · exact (ih hx hdelay).of_leads hleads'

/-- Boxes that are alike contain delays alike. -/
theorem contains_alike_iff (h : r.Alike v r') (hb : b.Alike v r r' b') : Contains r' b' ↔ Contains r b :=
  ⟨contains_of_alike h.symm (hb.symm h), contains_of_alike h hb⟩

end Delay

end Patchbay
