import Mathlib.Data.List.Perm.Subperm
import Patchbay.Proofs.Parser.Places

/-!
# Nodes that reading makes

`State.Grown s nodes t` says what the nodes made between two states have in common: they have different numbers, all
given out between `s` and `t`; a number among them has the value of a token that was still to be read; and a node with
an invalid part is invalid itself. Nodes made one after another have this together, so every function that reads is
described by the nodes of what it returns. `Made d tokens s nodes t` adds where the nodes stand, and from where to where
each definition among them was read. Jobs that go on from a box already read add to its nodes.
-/

open List

namespace Patchbay

/-- The value that a number token is read as. -/
def Token.value (t : Token) : Binary64 := (Number.ofNumeral? t.text.toList).getD (.infinite false)

/-- What reading tokens guarantees about a node by itself. -/
def Node.ReadFrom (tokens : List Token) : Node → Prop
  | .box (.number _ value _) => ∃ t ∈ tokens, t.kind = .number ∧ (value = t.value ∨ value = -t.value)
  | .box (.call mark _ args) => mark.invalid = false → ∀ a ∈ args, a.invalid = false
  | .box (.compose mark _ left right) => mark.invalid = false → left.invalid = false ∧ right.invalid = false
  | .box (.block mark body _) => mark.invalid = false → body.invalid = false
  | .definition d => d.invalid = false → ∀ b ∈ d.body, b.invalid = false
  | .importing i => i.mark.invalid = false
  | .declaration d => d.mark.invalid = false
  | _ => True

variable {left right : Box} {invalid : Bool} {n : Node} {issue : Issue} {token : Token} {b : Braces} {rest : List Token}

theorem Node.ReadFrom.mono {tokens tokens' : List Token} (h : n.ReadFrom tokens) (hsub : tokens ⊆ tokens') :
    n.ReadFrom tokens' := by
  cases n with
  | box b =>
    cases b with
    | number mark value text =>
      rcases h with ⟨t, ht, hvalue⟩
      exact ⟨t, hsub ht, hvalue⟩
    | ref | string | call | compose | block => exact h
  | program | importing | declaration | definition => exact h

namespace Parser

open State

/-! ## Nodes made between two states -/

/-- These nodes were made from one state to the other. -/
structure State.Grown (s : State) (nodes : List Node) (t : State) : Prop where
  suffix : t.rest <:+ s.rest
  counted : s.lastId ≤ t.lastId
  numbered : ∀ n ∈ nodes, s.lastId < n.mark.id ∧ n.mark.id ≤ t.lastId
  distinct : (nodes.map (·.mark.id)).Nodup
  read : ∀ n ∈ nodes, n.ReadFrom s.rest

namespace State.Grown

variable {s t u : State} {nodes others : List Node}

theorem of_extends (h : s.Extends t) : s.Grown [] t :=
  ⟨h.suffix, h.counted, fun _ hn => absurd hn not_mem_nil, nodup_nil,
    fun _ hn => absurd hn not_mem_nil⟩

theorem refl (s : State) : s.Grown [] s := of_extends (.refl s)

/-- Nodes made one after another have different numbers, because numbers are given out upwards. -/
theorem append (h : s.Grown nodes t) (h' : t.Grown others u) : s.Grown (nodes ++ others) u := by
  refine ⟨h'.suffix.trans h.suffix, Nat.le_trans h.counted h'.counted, ?_, ?_, ?_⟩
  · intro n hn
    rcases mem_append.mp hn with hn | hn
    · exact ⟨(h.numbered n hn).1, Nat.le_trans (h.numbered n hn).2 h'.counted⟩
    · exact ⟨Nat.lt_of_le_of_lt h.counted (h'.numbered n hn).1, (h'.numbered n hn).2⟩
  · rw [map_append, List.nodup_append]
    refine ⟨h.distinct, h'.distinct, ?_⟩
    intro i hi j hj
    obtain ⟨n, hn, rfl⟩ := mem_map.mp hi
    obtain ⟨m, hm, rfl⟩ := mem_map.mp hj
    exact Nat.ne_of_lt (Nat.lt_of_le_of_lt (h.numbered n hn).2 (h'.numbered m hm).1)
  · intro n hn
    rcases mem_append.mp hn with hn | hn
    · exact h.read n hn
    · exact (h'.read n hn).mono h.suffix.subset

/-- Some of the nodes, in any order. -/
theorem subperm (h : s.Grown nodes t) (hsub : others.Subperm nodes) : s.Grown others t := by
  refine ⟨h.suffix, h.counted, fun n hn => h.numbered n (hsub.subset hn), ?_, fun n hn => h.read n (hsub.subset hn)⟩
  obtain ⟨l, hperm, hsublist⟩ := hsub
  exact (hperm.map _).nodup_iff.mp ((hsublist.map _).nodup h.distinct)

/-- One node more, under the next number. -/
theorem add (h : s.Grown nodes t) (hid : n.mark.id = t.lastId + 1) (hn : n.ReadFrom s.rest) :
    s.Grown (n :: nodes) t.count := by
  refine ⟨h.suffix, Nat.le_succ_of_le h.counted, ?_, ?_, ?_⟩
  · intro m hm
    rcases mem_cons.mp hm with rfl | hm
    · rw [hid]
      exact ⟨Nat.lt_succ_of_le h.counted, Nat.le_refl _⟩
    · exact ⟨(h.numbered m hm).1, Nat.le_succ_of_le (h.numbered m hm).2⟩
  · rw [map_cons, nodup_cons]
    refine ⟨?_, h.distinct⟩
    intro hmem
    obtain ⟨m, hm, hmid⟩ := mem_map.mp hmem
    have hle := (h.numbered m hm).2
    omega
  · intro m hm
    rcases mem_cons.mp hm with rfl | hm
    · exact hn
    · exact h.read m hm

end State.Grown

/-- The definition was read somewhere on the way from one state to the other. -/
def Traced (d : Int) (s t : State) (e : Definition) : Prop :=
  ∃ name u v b, Reading d (.definition name) u e v b ∧ u.peek = some name ∧ u.rest <:+ s.rest ∧
    s.findings <+: u.findings ∧ v.findings <+: t.findings

/-- These nodes were made from one state to the other, and stand at the tokens. -/
structure Made (d : Int) (tokens : List Token) (s : State) (nodes : List Node) (t : State) : Prop where
  grown : s.Grown nodes t
  located : Located tokens nodes t
  found : s.findings <+: t.findings
  traced : ∀ e, .definition e ∈ nodes → Traced d s t e

variable {d : Int} {tokens : List Token} {s₀ s t u : State} {nodes others : List Node}

namespace Made

theorem refl (h : s.Located tokens) : Made d tokens s [] s :=
  ⟨.refl s, .of_state h, prefix_refl _, fun _ he => absurd he not_mem_nil⟩

section

variable (h : Made d tokens s nodes t)

include h

theorem state : t.Located tokens := h.located.state

theorem append (h' : Made d tokens t others u) : Made d tokens s (nodes ++ others) u := by
  refine ⟨h.grown.append h'.grown, h.located.append h'.located, h.found.trans h'.found, fun e he => ?_⟩
  rcases mem_append.mp he with he | he
  · obtain ⟨name, v, w, b, hread, hname, hrest, hbefore, hafter⟩ := h.traced e he
    exact ⟨name, v, w, b, hread, hname, hrest, hbefore, hafter.trans h'.found⟩
  · obtain ⟨name, v, w, b, hread, hname, hrest, hbefore, hafter⟩ := h'.traced e he
    exact ⟨name, v, w, b, hread, hname, hrest.trans h.grown.suffix, h.found.trans hbefore, hafter⟩

theorem subperm (hsub : others.Subperm nodes) : Made d tokens s others t :=
  ⟨h.grown.subperm hsub, h.located.subset hsub.subset, h.found, fun e he => h.traced e (hsub.subset he)⟩

theorem perm (hperm : others.Perm nodes) : Made d tokens s others t :=
  h.subperm hperm.subperm

/-- The nodes of what was read are given up. -/
theorem forget : Made d tokens s [] t := h.subperm (nil_sublist _).subperm

end

theorem of_extends (h : s.Extends t) (hlocated : t.Located tokens) : Made d tokens s [] t :=
  ⟨.of_extends h, .of_state hlocated, h.findings, fun _ he => absurd he not_mem_nil⟩

theorem later (h : Made d tokens s nodes t) (hu : t.Extends u) (hlocated : u.Located tokens) :
    Made d tokens s nodes u :=
  append_nil nodes ▸ h.append (of_extends hu hlocated)

theorem after (h : s.Extends t) (ht : t.Located tokens) (h' : Made d tokens t nodes u) : Made d tokens s nodes u :=
  (of_extends h ht).append h'

/-- One node more, under the next number. -/
theorem add (h : Made d tokens s nodes t) (hid : n.mark.id = t.lastId + 1) (hread : n.ReadFrom s.rest)
    (hlocated : n.Located tokens) (htraced : ∀ e, n = .definition e → Traced d s t e) :
    Made d tokens s (n :: nodes) t.count :=
  ⟨h.grown.add hid hread, h.located.add hlocated, h.found,
    fun e he => (mem_cons.mp he).elim (fun he => htraced e he.symm) (h.traced e)⟩

/-- One box more. -/
theorem addBox {x : Box} (h : Made d tokens s nodes t) (hid : x.id = t.lastId + 1)
    (hread : (Node.box x).ReadFrom s.rest) (hlocated : (Node.box x).Located tokens) :
    Made d tokens s (.box x :: nodes) t.count :=
  h.add hid hread hlocated (by simp)

/-- A node that is numbered before the others. -/
theorem first (h : Made d tokens s [] t) (h' : Made d tokens t.count nodes u) (hid : n.mark.id = t.lastId + 1)
    (hread : n.ReadFrom s.rest) (hlocated : n.Located tokens) (htraced : ∀ e, n = .definition e → Traced d s u e) :
    Made d tokens s (n :: nodes) u := by
  have hcount : Made d tokens s [] t.count := h.later t.extends_count h.state.count
  exact ⟨(h.grown.add hid hread).append h'.grown, (h.located.add hlocated).append h'.located, h.found.trans h'.found,
    fun e he => (mem_cons.mp he).elim (fun he => htraced e he.symm) ((hcount.append h').traced e)⟩

variable (h : Made d tokens s nodes t)

include h

/-- What could not be read leaves one invalid node, which may be anywhere, whatever was read before. -/
theorem invalidBox (token : Option Token) : Made d tokens s (t.invalidBox token).1.nodes (t.invalidBox token).2 :=
  h.forget.addBox rfl trivial (by simp [Node.Located])

theorem advance : Made d tokens s nodes t.advance :=
  h.later t.extends_advance h.state.advance

theorem reportNext (hkind : issue.kind = .grammar)
    (hrelated : ∀ q ∈ issue.related, AtToken tokens q) : Made d tokens s nodes (t.reportNext issue) :=
  h.later (t.extends_reportNext issue hkind) (h.state.reportNext hrelated)

/-- An issue that is related to no other place. -/
theorem reportAlone (hkind : issue.kind = .grammar) (hrelated : issue.related = []) :
    Made d tokens s nodes (t.reportNext issue) :=
  h.reportNext hkind (by simp [hrelated])

/-- An issue about a token. -/
theorem reportAt (htoken : token ∈ tokens) (hkind : issue.kind = .grammar)
    (hrelated : issue.related = []) : Made d tokens s nodes (t.report token.start issue) :=
  h.later (t.extends_report token.start issue hkind)
    (h.state.report (AtToken.near ⟨token, htoken, rfl⟩) (by simp [hrelated]))

theorem recover : Made d tokens s nodes t.recover :=
  h.later t.extends_recover h.state.recover

theorem endStatement (what : String) : Made d tokens s nodes (Parser.endStatement what t).2 :=
  h.later (extends_endStatement what t) (h.state.endStatement what)

theorem parameters : Made d tokens s nodes (Parser.parameters t).2.2 :=
  h.later (extends_parameters t) h.state.parameters

end Made

/-! ## Single boxes -/

/-- Reading the value of a number changes neither the tokens nor the numbers of nodes. -/
theorem numberOf_eq (s : State) (token : Token) :
    (s.numberOf token).1 = token.value ∧ (s.numberOf token).2.rest = s.rest
      ∧ (s.numberOf token).2.lastId = s.lastId := by
  unfold numberOf Token.value
  cases Number.ofNumeral? token.text.toList with
  | none => exact ⟨rfl, rfl, rfl⟩
  | some value => exact ⟨rfl, rfl, rfl⟩

theorem made_leaf (h : s.Located tokens) (hrest : s.rest = token :: rest) (hleaf : LeafAt token s) :
    Made d tokens s (leaf token s).1.nodes (leaf token s).2 := by
  have htoken := h.mem_of_rest hrest
  unfold leaf
  split
  · rename_i hkind
    have hmem : token ∈ s.rest := by simp [hrest]
    obtain ⟨hvalue, -, -⟩ := numberOf_eq s.advance token
    have hnumber := (Made.refl (d := d) h).later (extends_numberOf s.extends_advance hmem hkind)
      (h.advance.numberOf token)
    exact hnumber.addBox rfl ⟨token, hmem, hkind, .inl hvalue⟩ (located_unnamed htoken rfl rfl)
  · exact (Made.refl h).advance.addBox rfl trivial (located_unnamed htoken rfl rfl)
  · rename_i hnumber hstring
    have hkind : token.kind = .identifier ∨ isOperatorBox token := by
      rcases hleaf with ⟨hname, -⟩ | hkind | hkind | ⟨hbox, -⟩
      · exact .inl hname
      · exact absurd hkind hnumber
      · exact absurd hkind hstring
      · exact .inr hbox
    exact (Made.refl h).advance.addBox rfl trivial (located_named htoken hkind rfl rfl)

theorem made_negativeNumber (h : s.Located tokens) {sign : Token} (hrest : s.rest = sign :: token :: rest)
    (hkind : token.kind = .number) :
    Made d tokens s (negativeNumber sign token s).1.nodes (negativeNumber sign token s).2 := by
  have hmem : token ∈ s.rest := by simp [hrest]
  obtain ⟨hvalue, -, -⟩ := numberOf_eq s.advance.advance token
  have hnumber := (Made.refl (d := d) h).later
    (extends_numberOf (s.extends_advance.trans (extends_advance _)) hmem hkind)
    (h.advance.advance.numberOf token)
  exact hnumber.addBox rfl ⟨token, hmem, hkind, .inr (congrArg _ hvalue)⟩
    (located_unnamed (h.mem_of_rest hrest) rfl rfl)

theorem made_compose (h : Made d tokens s (left.nodes ++ right.nodes) t) (htoken : token ∈ tokens) (op : Operator)
    (hvalid : invalid = false → left.invalid = false ∧ right.invalid = false) :
    Made d tokens s (Box.compose { t.newMark token with invalid := invalid } op left right).nodes t.count := by
  rw [Box.nodes]
  exact h.addBox rfl hvalid (located_unnamed htoken rfl rfl)

theorem isOperatorBox_of_arithmetic {precedence : Nat} (h : arithmeticOf? token = some precedence) :
    isOperatorBox token := by
  unfold arithmeticOf? at h
  split at h
  · rename_i hkind
    simp [isOperatorBox, hkind, h]
  · simp at h

theorem made_arithmeticBox (h : Made d tokens s (left.nodes ++ right.nodes) t) (htoken : token ∈ tokens)
    (hbox : isOperatorBox token) (hleft : left.invalid = false) :
    Made d tokens s (arithmeticBox token left right t).1.nodes (arithmeticBox token left right t).2 := by
  have hpair := made_compose h htoken .par fun hright => ⟨hleft, hright⟩
  have hname := hpair.addBox (x := .ref (t.count.newMark token) token.text) rfl trivial
    (located_named htoken (.inr hbox) rfl rfl)
  exact made_compose (hname.perm perm_append_comm) htoken .seq fun hright => ⟨hright, rfl⟩

theorem made_prime {read : Box × State} (h : Made d tokens s₀ read.1.nodes read.2) (htoken : token ∈ tokens)
    (hvalid : read.1.invalid = false) : Made d tokens s₀ (prime read token).1.nodes (prime read token).2 := by
  have hdelay := h.advance.addBox (x := .ref (read.2.advance.newMark token) "mem") rfl trivial
    (located_box htoken rfl fun _ h => .inl (Option.some.inj h).symm)
  exact made_compose (hdelay.perm perm_append_comm) htoken .seq fun _ => ⟨hvalid, rfl⟩

theorem made_primes {box : Box} (h : Made d tokens s₀ box.nodes s) :
    Made d tokens s₀ (primes box s).1.nodes (primes box s).2 := by
  -- A prime gives a valid box, so the next one finds a valid box too.
  have hfold (ts : List Token) (hts : ts ⊆ tokens) (read : Box × State) (hread : Made d tokens s₀ read.1.nodes read.2)
      (hvalid : read.1.invalid = false) : Made d tokens s₀ (ts.foldl prime read).1.nodes (ts.foldl prime read).2 := by
    induction ts generalizing read with
    | nil => exact hread
    | cons t ts ih =>
      exact ih (fun u hu => hts (mem_cons_of_mem _ hu)) (prime read t)
        (made_prime hread (hts mem_cons_self) hvalid) rfl
  unfold primes
  split
  · exact h
  · rename_i hvalid
    exact hfold _ (fun t ht => h.state.rest (takeWhile_subset _ ht)) (box, s) h (by simpa using hvalid)

/-! ## Boxes and definitions -/

/-- A job makes the nodes of what it gives. -/
def Job.Makes (d : Int) (tokens : List Token) : (job : Job) → State → job.Result → State → Prop
  | .expression _, s, box, t => s.Located tokens → Made d tokens s box.nodes t
  | .blocks body, s, box, t => ∀ s₀, Made d tokens s₀ body.nodes s → Made d tokens s₀ box.nodes t
  | .composition _ _, s, box, t => s.Located tokens → Made d tokens s box.nodes t
  | .compositionRest _ _ left, s, box, t => ∀ s₀, Made d tokens s₀ left.nodes s → Made d tokens s₀ box.nodes t
  | .arithmetic _, s, box, t => s.Located tokens → Made d tokens s box.nodes t
  | .arithmeticRest _ left, s, box, t => ∀ s₀, Made d tokens s₀ left.nodes s → Made d tokens s₀ box.nodes t
  | .primary, s, box, t => s.Located tokens → Made d tokens s box.nodes t
  | .arguments _ opening args, s, read, t => ∀ s₀, AtToken tokens opening → Made d tokens s₀ (Box.nodesAll args) s →
    (∀ a ∈ args, a.invalid = false) →
    Made d tokens s₀ (Box.nodesAll read.1) t ∧ (read.2 = true → ∀ a ∈ read.1, a.invalid = false)
  | .localDefinitions locals, s, ds, t => ∀ s₀, Made d tokens s₀ (Definition.nodesAll locals) s →
    Made d tokens s₀ (Definition.nodesAll ds) t
  | .definition name, s, e, t => s.peek = some name → s.Located tokens → Made d tokens s e.nodes t

/-- How many expressions are open says nothing about nodes and places. -/
theorem Made.leave (h : Made d tokens s.enter nodes t) : Made d tokens s nodes t.leave :=
  ⟨⟨h.grown.suffix, h.grown.counted, h.grown.numbered, h.grown.distinct, h.grown.read⟩,
    ⟨⟨h.state.rest, h.state.last, h.state.findings⟩, h.located.nodes⟩, h.found, h.traced⟩

theorem Made.argument {args : List Box} {argument : Box} (h : Made d tokens s₀ (Box.nodesAll args) s)
    (h' : Made d tokens s argument.nodes t) : Made d tokens s₀ (Box.nodesAll (args ++ [argument])) t := by
  rw [Box.nodesAll_append, Box.nodesAll, Box.nodesAll, append_nil]
  exact h.append h'

/-- A block is numbered after its body and before its definitions. -/
theorem made_block {body : Box} (h : Made d tokens s₀ body.nodes s) (hbody : body.invalid = false) {keyword : Token}
    (hkeyword : keyword ∈ tokens) {locals : List Definition} (invalid : Bool)
    (hlocals : Made d tokens s.advance.advance.count (Definition.nodesAll locals) t) :
    Made d tokens s₀ (Box.block { s.advance.advance.newMark keyword with invalid := invalid } body locals).nodes t := by
  have hmark := h.advance.advance.addBox
    (x := .block { s.advance.advance.newMark keyword with invalid := invalid } body locals) rfl (fun _ => hbody)
    (located_unnamed hkeyword rfl rfl)
  rw [Box.nodes]
  exact hmark.append hlocals

/-- A definition is numbered before its body. -/
theorem made_definition (h : s.Located tokens) {name : Token} (hname : s.peek = some name) {body : Option Box}
    {stop : Position} (hread : Reading d (.definition name) s (definitionOf name s invalid body stop) t b)
    (hinvalid : invalid = false → ∀ b ∈ body, b.invalid = false)
    (hbody : Made d tokens (header s).2.2 (body.elim [] Box.nodes) t) :
    Made d tokens s (definitionOf name s invalid body stop).nodes t := by
  have hheader : Made d tokens s.advance.count [] (header s).2.2 := (Made.refl h.advance.count).parameters
  have htraced : Traced d s t (definitionOf name s invalid body stop) :=
    ⟨name, s, t, b, hread, hname, suffix_refl _, prefix_refl _, prefix_refl _⟩
  have hall := (Made.refl h).advance.first (hheader.append hbody)
    (n := .definition (definitionOf name s invalid body stop)) rfl hinvalid
    (located_definition (h.mem_of_peek hname) rfl)
    fun e he => Node.definition.inj he ▸ htraced
  cases body with
  | none => exact hall
  | some body => exact hall

/-- Reading makes the nodes of what it gives. -/
theorem Reading.makes {job : Job} {r : job.Result} (h : Reading d job s r t b) : job.Makes d tokens s r t := by
  induction h with
  | @nested _ s =>
    intro h
    have hopen : s.enter.Located tokens := ⟨h.rest, h.last, h.findings⟩
    exact (((Made.refl hopen).reportAlone rfl rfl).invalidBox _).leave
  | expression _ _ _ ih ih' => exact fun h => (ih' _ (ih ⟨h.rest, h.last, h.findings⟩)).leave
  | blocksDone | compositionDone | arithmeticDone | localsDone => exact fun _ h => h
  | blockMissing => exact fun _ h => (h.advance.reportAlone rfl rfl).invalidBox _
  | blockUnclosed hvalid hrest _ hopen _ _ ih =>
    intro s₀ h
    have hblock := made_block h hvalid (h.state.mem_of_rest hrest) true (ih _ (.refl h.advance.advance.state.count))
    exact hblock.reportNext rfl fun q hq => mem_singleton.mp hq ▸ h.advance.state.at_peek hopen
  | block hvalid hrest _ _ _ _ _ ih ih' =>
    intro s₀ h
    exact ih' _ (made_block h hvalid (h.state.mem_of_rest hrest) false
      (ih _ (.refl h.advance.advance.state.count))).advance
  | composition _ _ ih ih' => exact fun h => ih' _ (ih h)
  | compose hvalid hrest _ _ _ _ ih ih' =>
    intro s₀ h
    exact ih' _ (made_compose (h.advance.append (ih h.state.advance)) (h.state.mem_of_rest hrest) _
      fun hinvalid => ⟨hvalid, hinvalid⟩)
  | arithmetic _ _ ih ih' => exact fun h => ih' _ (made_primes (ih h))
  | operate hvalid hrest hop _ _ _ ih ih' =>
    intro s₀ h
    exact ih' _ (made_arithmeticBox (h.advance.append (ih h.state.advance)) (h.state.mem_of_rest hrest)
      (isOperatorBox_of_arithmetic hop) hvalid)
  | ended | unexpected => exact fun h => ((Made.refl h).reportAlone rfl rfl).invalidBox _
  | leaf hrest hleaf => exact fun h => made_leaf h hrest hleaf
  | negative hrest _ hnumber => exact fun h => made_negativeNumber h hrest hnumber
  | parenthesisInvalid _ _ _ _ ih => exact fun h => .after (extends_advance _) h.advance (ih h.advance)
  | @parenthesisUnclosed _ opening _ _ _ _ hrest _ _ _ _ ih =>
    intro h
    refine ((Made.after (extends_advance _) h.advance (ih h.advance)).reportNext rfl fun q hq => ?_).invalidBox _
    exact ⟨opening, h.mem_of_rest hrest, mem_singleton.mp hq⟩
  | parenthesis _ _ _ _ _ ih => exact fun h => (Made.after (extends_advance _) h.advance (ih h.advance)).advance
  | @callEmpty s name _ hrest hcall =>
    intro h
    have hmade := (Made.refl (d := d) h).advance.advance.addBox
      (x := .call { s.advance.advance.newMark name with invalid := true } name.text []) rfl
      (fun hvalid => absurd hvalid (by simp))
      (located_named (h.mem_of_rest hrest) (hcall.1.imp_right And.left) rfl rfl)
    exact (hmade.reportAlone rfl rfl).advance
  | call hrest hcall _ _ ih =>
    intro h
    obtain ⟨hargs, hvalid⟩ := ih _ (h.advance.at_peek hcall.2) (.refl h.advance.advance.count) (by simp)
    -- The call is numbered before its arguments.
    exact (Made.refl h).advance.advance.first hargs rfl (fun hinvalid => hvalid (by simpa using hinvalid))
      (located_named (h.mem_of_rest hrest) (hcall.1.imp_right And.left) rfl rfl) (by simp)
  | argumentInvalid _ _ ih => exact fun _ _ h _ => ⟨h.argument (ih h.state), by simp⟩
  | argumentsMalformed _ _ _ ih =>
    intro s₀ hopening h _
    exact ⟨(h.argument (ih h.state)).reportNext rfl fun q hq => mem_singleton.mp hq ▸ hopening, by simp⟩
  | argumentsMore _ hvalid _ _ _ ih ih' =>
    intro s₀ hopening h hargs
    exact ih' _ hopening (h.argument (ih h.state)).advance
      (forall_mem_append.mpr ⟨hargs, forall_mem_singleton.mpr hvalid⟩)
  | argumentsEnd _ hvalid _ _ ih =>
    intro s₀ _ h hargs
    exact ⟨(h.argument (ih h.state)).advance,
      fun _ => forall_mem_append.mpr ⟨hargs, forall_mem_singleton.mpr hvalid⟩⟩
  | localsSkip hrest _ _ _ ih => exact fun s₀ h => ih _ (h.reportAt (h.state.mem_of_rest hrest) rfl rfl).recover
  | localsMore hrest _ _ _ ih ih' =>
    intro s₀ h
    refine ih' _ ?_
    rw [Definition.nodesAll_append, Definition.nodesAll, Definition.nodesAll, append_nil]
    exact h.append (ih (by simp [peek, hrest]) h.state)
  | headerUnreadable hreadable =>
    intro hname h
    have hheader := (Made.refl (d := d) h.advance.count).parameters.state
    exact made_definition h hname (.headerUnreadable hreadable) (by simp) (Made.refl hheader).recover
  | headerUnended hreadable hequals =>
    intro hname h
    have hheader := (Made.refl (d := d) h.advance.count).parameters.state
    exact made_definition h hname (.headerUnended hreadable hequals) (by simp)
      ((Made.refl hheader).reportAlone rfl rfl).recover
  | bodyInvalid hreadable hequals hbody hinvalid ih =>
    intro hname h
    have hheader := (Made.refl (d := d) h.advance.count).parameters.state
    exact made_definition h hname (.bodyInvalid hreadable hequals hbody hinvalid) (by simp)
      (Made.after (extends_advance _) hheader.advance (ih hheader.advance)).recover
  | definition hreadable hequals hbody hvalid ih =>
    intro hname h
    have hheader := (Made.refl (d := d) h.advance.count).parameters.state
    refine made_definition h hname (.definition hreadable hequals hbody hvalid) (fun _ b hb => ?_)
      ((Made.after (extends_advance _) hheader.advance (ih hheader.advance)).endStatement _)
    exact Option.some.inj hb ▸ hvalid

/-! ## Statements -/

theorem atToken_newMark (h : s.Located tokens) (hrest : s.rest = token :: rest) (t : State) :
    AtToken tokens (t.newMark s.peek).position := by
  rw [peek, hrest]
  exact ⟨token, h.mem_of_rest hrest, rfl⟩

theorem made_importStatement (h : s.Located tokens) (hrest : s.rest = token :: rest) :
    Made d tokens s ((importStatement s).1.toList.map .importing) (importStatement s).2 := by
  have hkeyword := (Made.refl (d := d) h).advance
  have hname := hkeyword.advance
  unfold importStatement
  dsimp only
  split
  · exact (hkeyword.reportAlone rfl rfl).recover
  · split
    · exact (hname.reportAlone rfl rfl).recover
    · split
      · exact (hname.reportAlone rfl rfl).recover
      · refine Made.add ?_ rfl rfl (atToken_newMark h hrest _) (by simp)
        split
        · exact hname.advance.advance.endStatement _
        · exact (hname.advance.reportAlone rfl rfl).recover

theorem made_declareStatement (h : s.Located tokens) (hrest : s.rest = token :: rest) :
    Made d tokens s ((declareStatement s).1.toList.map .declaration) (declareStatement s).2 := by
  have hfold (names : List Token) (t : State) (ht : Made d tokens s [] t) :
      Made d tokens s [] (names.foldl (fun s _ => s.advance) t) := by
    induction names generalizing t with
    | nil => exact ht
    | cons _ names ih => exact ih t.advance ht.advance
  have hnames := hfold (s.advance.rest.takeWhile (·.kind == .identifier)) _ (Made.refl h).advance
  unfold declareStatement
  dsimp only
  split
  · exact (hnames.reportAlone rfl rfl).recover
  · split
    · exact (hnames.reportAlone rfl rfl).recover
    · exact (hnames.advance.endStatement _).add rfl rfl (atToken_newMark h hrest _) (by simp)

/-- The nodes of a program below its root. -/
def inner (p : Program) : List Node :=
  p.imports.map .importing ++ p.declarations.map .declaration ++ Definition.nodesAll p.definitions

theorem made_round {p : Program} (h : Made d tokens s₀ (inner p) s) (hrest : s.rest = token :: rest) :
    Made d tokens s₀ (inner (round d token p s).1) (round d token p s).2 := by
  have htoken := h.state.mem_of_rest hrest
  unfold round
  split
  · refine (h.append (made_importStatement h.state hrest)).perm ?_
    simp only [inner, map_append, List.append_assoc]
    exact Perm.append_left _ (perm_append_comm.trans (by simp))
  · split
    · refine (h.append (made_declareStatement h.state hrest)).perm ?_
      simp only [inner, map_append, List.append_assoc]
      exact Perm.append_left _ (Perm.append_left _ perm_append_comm)
    · split
      · have hpeek : s.peek = some token := by simp [peek, hrest]
        have hdefinition := h.append ((gives_definition d token s).choose_spec.makes hpeek h.state)
        simpa only [inner, Definition.nodesAll_append, Definition.nodesAll, append_nil,
          List.append_assoc] using hdefinition
      · split
        · exact (h.reportAt htoken rfl rfl).advance
        · exact (h.reportAt htoken rfl rfl).recover

theorem made_statements (fuel : Nat) (p : Program) (s : State) (h : Made d tokens s₀ (inner p) s) :
    Made d tokens s₀ (inner (statements d fuel p s).1) (statements d fuel p s).2 := by
  induction fuel generalizing p s with
  | zero => exact h
  | succ fuel ih =>
    rw [statements]
    split
    · exact h
    · rename_i token rest hrest
      exact ih _ _ (made_round h hrest)

end Parser

namespace Program

open Patchbay.Parser

variable {tokens : List Token} {maxDepth : Int} {p : Program} {findings : List Finding}

variable (h : Program.parse tokens maxDepth = .ok (p, findings))

include h

/-- The nodes of a program that was read. -/
theorem made_of_parse : Made maxDepth tokens (State.start tokens) (inner p) (run maxDepth tokens).2 := by
  obtain ⟨-, rfl, -⟩ := run_of_parse h
  exact made_statements tokens.length .empty (.start tokens) (.refl (.start tokens))

/-- The nodes of a program that was read have different numbers. -/
theorem nodup_ids_of_parse : (p.nodes.map (·.mark.id)).Nodup := by
  have hgrown := (made_of_parse h).grown
  refine nodup_cons.mpr ⟨?_, hgrown.distinct⟩
  -- The root has number zero, and all others were given out above it.
  intro hmem
  obtain ⟨n, hn, hid⟩ := mem_map.mp hmem
  have hpos : 0 < n.mark.id := (hgrown.numbered n hn).1
  exact Nat.ne_of_gt hpos hid

theorem readFrom_of_parse (hn : n ∈ p.nodes) : n.ReadFrom tokens := by
  rcases mem_cons.mp hn with rfl | hn
  · exact trivial
  · exact (made_of_parse h).grown.read n hn

/-- Boxes that could not be read make all around them invalid. -/
theorem whole_of_parse (hn : n ∈ p.nodes) : n.Whole := by
  have hread := readFrom_of_parse h hn
  intro hvalid b hb
  cases n with
  | program | importing | declaration => simp [Node.children] at hb
  | definition d => exact hread hvalid b (by simpa [Node.children] using hb)
  | box x =>
    cases x with
    | ref | number | string => cases hb
    | call mark name args => exact hread hvalid b (by simpa [Node.children] using hb)
    | compose mark op left right =>
      rcases (by simpa [Node.children] using hb : b = left ∨ b = right) with rfl | rfl
      · exact (hread hvalid).1
      · exact (hread hvalid).2
    | block mark body locals =>
      obtain rfl : b = body := by simpa [Node.children] using hb
      exact hread hvalid

/-- Whatever is found while a program is read is about its grammar. -/
theorem grammatical_of_parse : ∀ f ∈ findings, f.issue.kind = .grammar := by
  obtain ⟨-, -, rfl⟩ := run_of_parse h
  intro f hf
  have hextends := extends_statements maxDepth tokens.length .empty (.start tokens)
  exact (hextends.grammatical f hf).resolve_left not_mem_nil

/-- What is read and what is found while reading has the places of tokens. -/
theorem located_of_parse : (∀ n ∈ p.nodes, n.Located tokens) ∧ ∀ f ∈ findings, f.Located tokens := by
  have hlocated := (made_of_parse h).located
  obtain ⟨-, rfl, rfl⟩ := run_of_parse h
  exact ⟨forall_mem_cons.mpr ⟨trivial, hlocated.nodes⟩, hlocated.state.findings⟩

end Program

end Patchbay
