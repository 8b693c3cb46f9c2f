import Patchbay.Proofs.Nodes
import Patchbay.Proofs.Parser.Acceptance

/-!
# Places that reading hands out

What is read stands at tokens: every statement and every definition has the place of a token, and so has every box that
could be read. The names of such boxes are those of tokens too. What could not be read, and what is found about it, may
also stand right after a token, or at the start of a text without tokens; a bracket that a finding refers to is a token
again.

`State.Located tokens s` is the invariant of reading a list of tokens, and `Located tokens nodes s` adds the nodes
made so far.
-/

namespace Patchbay

/-- The place is that of a token. -/
def AtToken (tokens : List Token) (q : Position) : Prop := ∃ t ∈ tokens, q = t.start

/-- The place is that of a token or right after one, or the start of the text. -/
def NearToken (tokens : List Token) (q : Position) : Prop := q = .start ∨ ∃ t ∈ tokens, q = t.start ∨ q = t.stop

variable {b : Box} {issue : Issue} {token : Token} {q : Position} {rest : List Token}

theorem AtToken.near {tokens : List Token} (h : AtToken tokens q) : NearToken tokens q := by
  obtain ⟨t, ht, hq⟩ := h
  exact .inr ⟨t, ht, .inl hq⟩

/-- The name is that of an identifier, of an operator that is a box, or of the delay that a prime stands for. -/
def IsName (tokens : List Token) (name : String) : Prop :=
  name = "mem" ∨ ∃ t ∈ tokens, t.text = name ∧ (t.kind = .identifier ∨ Parser.isOperatorBox t = true)

/-- What reading tokens guarantees about the place of a node, and about its name. -/
def Node.Located (tokens : List Token) : Node → Prop
  | .program _ => True
  | .box b => b.invalid = false → AtToken tokens b.position ∧ ∀ name ∈ b.name?, IsName tokens name
  | n => AtToken tokens n.mark.position

/-- What reading tokens guarantees about the places of a finding. -/
structure Finding.Located (tokens : List Token) (f : Finding) : Prop where
  near : NearToken tokens f.position
  related : ∀ q ∈ f.issue.related, AtToken tokens q

namespace Parser

/-- All that a state knows comes from the tokens. -/
structure State.Located (tokens : List Token) (s : State) : Prop where
  rest : s.rest ⊆ tokens
  last : ∀ t ∈ s.last, t ∈ tokens
  findings : ∀ f ∈ s.findings, f.Located tokens

/-- A state together with the nodes made on the way to it. -/
structure Located (tokens : List Token) (nodes : List Node) (s : State) : Prop where
  state : s.Located tokens
  nodes : ∀ n ∈ nodes, n.Located tokens

variable {tokens : List Token} {s t : State} {nodes others : List Node}

namespace State.Located

theorem start (tokens : List Token) : (State.start tokens).Located tokens :=
  ⟨fun _ => id, by simp [State.start], by simp [State.start]⟩

variable (h : s.Located tokens)

include h

theorem mem_of_rest (hrest : s.rest = token :: rest) : token ∈ tokens := h.rest (by simp [hrest])

theorem mem_of_peek (hpeek : s.peek = some token) : token ∈ tokens :=
  h.rest (List.mem_of_mem_head? hpeek)

/-- The place of the next token, or the one after the last token. -/
theorem near_place {token : Option Token} (htoken : ∀ t ∈ token, t ∈ tokens) : NearToken tokens (s.place token) := by
  unfold State.place
  cases token with
  | some token => exact .inr ⟨token, htoken token rfl, .inl rfl⟩
  | none =>
    cases hlast : s.last with
    | some last => exact .inr ⟨last, h.last last hlast, .inr rfl⟩
    | none => exact .inl rfl

theorem near_peek : NearToken tokens (s.place s.peek) :=
  h.near_place fun _ ht => h.mem_of_peek ht

/-- Where a mark comes next, its place is that of a token. -/
theorem at_peek {text : String} (hmark : s.atMark text) : AtToken tokens (s.place s.peek) := by
  unfold State.atMark at hmark
  cases hpeek : s.peek with
  | none => simp [hpeek] at hmark
  | some token => exact ⟨token, h.mem_of_peek hpeek, rfl⟩

theorem took {last : Option Token} (htook : Took s.rest s.last rest last) :
    State.Located tokens { s with rest := rest, last := last } := by
  refine ⟨fun t ht => h.rest (htook.suffix.subset ht), fun t ht => ?_, h.findings⟩
  obtain ⟨taken, hrest, rfl⟩ := htook
  rcases Option.or_eq_some_iff.mp ht with ht | ⟨-, ht⟩
  · exact h.rest (hrest ▸ List.mem_append_left rest (List.mem_of_getLast? ht))
  · exact h.last t ht

theorem advance : s.advance.Located tokens := by
  unfold State.advance
  split
  · exact h
  · rename_i token rest hrest
    exact h.took (hrest ▸ .one token rest s.last)

theorem count : s.count.Located tokens := ⟨h.rest, h.last, h.findings⟩

theorem report (hq : NearToken tokens q) (hrelated : ∀ q ∈ issue.related, AtToken tokens q) :
    (s.report q issue).Located tokens := by
  refine ⟨h.rest, h.last, ?_⟩
  intro f hf
  rcases List.mem_append.mp hf with hf | hf
  · exact h.findings f hf
  · rw [List.mem_singleton.mp hf]
    exact ⟨hq, hrelated⟩

theorem reportNext (hrelated : ∀ q ∈ issue.related, AtToken tokens q) :
    (s.reportNext issue).Located tokens := h.report h.near_peek hrelated

/-- An issue that is related to no other place. -/
theorem reportAlone (hrelated : issue.related = []) : (s.reportNext issue).Located tokens :=
  h.reportNext (by simp [hrelated])

theorem recover : s.recover.Located tokens := h.took (took_skipStatement 0 s.rest s.last)

theorem endStatement (what : String) : (endStatement what s).2.Located tokens := by
  unfold Parser.endStatement
  split
  · exact h.report (h.near_place (by simp)) (by simp [Issue.related])
  · rename_i token rest hrest
    have htoken := h.mem_of_rest hrest
    split
    · exact h.advance
    · split
      · exact (h.report (AtToken.near ⟨token, htoken, rfl⟩) (by simp [Issue.related])).recover
      · have hreport (q : Position) (hq : NearToken tokens q) :
            (s.report q (.missingSemicolon what (some token))).Located tokens :=
          h.report hq (by simp [Issue.related])
        cases hlast : s.last with
        | some last =>
          have hplace : NearToken tokens last.stop := .inr ⟨last, h.last last hlast, .inr rfl⟩
          dsimp only
          split
          · exact hreport _ hplace
          · exact (hreport _ hplace).recover
        | none =>
          have hplace : NearToken tokens token.start := .inr ⟨token, htoken, .inl rfl⟩
          dsimp only
          split
          · exact hreport _ hplace
          · exact (hreport _ hplace).recover

theorem numberOf (token : Token) : (s.numberOf token).2.Located tokens := by
  unfold State.numberOf
  split
  · exact h
  · exact ⟨h.rest, h.last, h.findings⟩

theorem parameters : (parameters s).2.2.Located tokens := by
  have hrelated (names : List String) (ts : List Token) (last : Option Token) (issue : Issue)
      (hissue : (parametersFrom names ts last).issue = some issue) : issue.related = [] := by
    fun_induction parametersFrom names ts last <;> grind [Issue.related]
  have hread : State.Located tokens { s.advance with
      rest := (parametersFrom [] s.advance.rest s.advance.last).rest
      last := (parametersFrom [] s.advance.rest s.advance.last).last } :=
    h.advance.took (took_parametersFrom [] _ _)
  unfold Parser.parameters
  split
  · exact h
  · dsimp only
    split
    · exact hread
    · rename_i issue hissue
      exact hread.reportAlone (hrelated _ _ _ issue hissue)

end State.Located

namespace Located

theorem of_state (h : s.Located tokens) : Located tokens [] s := ⟨h, by simp⟩

theorem append (h : Located tokens nodes s) (h' : Located tokens others t) : Located tokens (nodes ++ others) t :=
  ⟨h'.state, List.forall_mem_append.mpr ⟨h.nodes, h'.nodes⟩⟩

theorem add (h : Located tokens nodes s) {n : Node} (hn : n.Located tokens) : Located tokens (n :: nodes) s.count :=
  ⟨h.state.count, List.forall_mem_cons.mpr ⟨hn, h.nodes⟩⟩

theorem subset (h : Located tokens nodes s) (hsub : others ⊆ nodes) : Located tokens others s :=
  ⟨h.state, fun n hn => h.nodes n (hsub hn)⟩

end Located

theorem located_box (htoken : token ∈ tokens) (hb : b.position = token.start)
    (hname : ∀ name ∈ b.name?, IsName tokens name) : (Node.box b).Located tokens :=
  fun _ => ⟨⟨token, htoken, hb⟩, hname⟩

theorem located_unnamed (htoken : token ∈ tokens) (hb : b.position = token.start) (hname : b.name? = none) :
    (Node.box b).Located tokens :=
  located_box htoken hb (by simp [hname])

/-- A box with the name of a token. -/
theorem located_named (htoken : token ∈ tokens) (hkind : token.kind = .identifier ∨ isOperatorBox token)
    (hb : b.position = token.start) (hname : b.name? = some token.text) : (Node.box b).Located tokens := by
  refine located_box htoken hb ?_
  intro name h
  exact .inr ⟨token, htoken, Option.some.inj (hname.symm.trans h), hkind⟩

theorem located_definition (htoken : token ∈ tokens) {d : Definition} (hd : d.mark.position = token.start) :
    (Node.definition d).Located tokens := ⟨token, htoken, hd⟩

end Parser

end Patchbay
