import Patchbay.Proofs.Parser.Reading
import Patchbay.Proofs.Parser.Shift

/-!
# Reading with more before and after

The same tokens can be read alone, or behind statements that were read before and in front of tokens that come later.
`Surroundings.embed` takes a state of reading them alone to the state of reading them there: more tokens are left,
numbers are higher, and findings stand behind earlier ones. As long as reading alone does not use up its tokens, nothing
that reads can tell the difference. Where it uses them up and reports nothing, the difference does not matter if no box
goes on with the token that comes then.
-/

open List

namespace Patchbay.Parser

/-! ## Surroundings -/

/-- What was read before, and what comes after. -/
structure Surroundings where
  /-- The number given to the newest node before. -/
  ids : Nat
  /-- The tokens that come after. -/
  tail : List Token
  findings : List Finding
  oversized : Bool
  starved : Bool

variable {text : String} {ts tail : List Token} {last : Option Token}

namespace Surroundings

/-- The state of reading in the surroundings what is read alone in `s`. -/
def embed (c : Surroundings) (s : State) : State where
  rest := s.rest ++ c.tail
  last := s.last
  depth := s.depth
  lastId := s.lastId + c.ids
  findings := c.findings ++ s.findings
  oversized := c.oversized || s.oversized
  starved := c.starved || s.starved

/-- What is read in the surroundings, for what is read alone. -/
def carry (c : Surroundings) (read : Box × State) : Box × State := (read.1.shift c.ids, c.embed read.2)

/-- Reading alone has not used up its tokens, unless no other tokens follow. -/
def Lasts (c : Surroundings) (s : State) : Prop := c.tail = [] ∨ s.rest ≠ []

variable {c : Surroundings} {s t : State}

theorem Lasts.of_extends (h : c.Lasts t) (hst : s.Extends t) : c.Lasts s := by
  rcases h with h | h
  · exact Or.inl h
  · right
    intro hnil
    have hsuffix := hst.suffix
    rw [hnil] at hsuffix
    exact h (suffix_nil.mp hsuffix)

/-- Both ways of reading see the same next token. -/
theorem Lasts.cases (h : c.Lasts s) : (s.rest = [] ∧ (c.embed s).rest = []) ∨
    ∃ token rest, s.rest = token :: rest ∧ (c.embed s).rest = token :: (rest ++ c.tail) := by
  cases hrest : s.rest with
  | nil =>
    rcases h with h | h
    · exact Or.inl ⟨rfl, by simp [embed, hrest, h]⟩
    · exact absurd hrest h
  | cons token rest => exact Or.inr ⟨token, rest, rfl, by simp [embed, hrest]⟩

theorem Lasts.of_rest (h : c.Lasts t) (hrest : t.rest = s.rest) : c.Lasts s := by
  rw [Lasts, ← hrest]
  exact h

theorem Lasts.head? (h : c.Lasts s) : (c.embed s).rest.head? = s.rest.head? := by
  rcases h.cases with ⟨hs, hc⟩ | ⟨token, rest, hs, hc⟩
  · rw [hs, hc]
  · rw [hs, hc]
    rfl

/-- A box that ended before the end of the text also ends before this token. -/
structure Halting (t : Token) : Prop where
  operator : t.kind ≠ .operator
  number : t.kind ≠ .number
  opening : t.isMark "(" = false
  closing : t.isMark ")" = false
  block : t.isKeyword "with" = false

/-- Reading alone has not used up its tokens, or it has reported nothing and boxes end where others follow. -/
def Holds (c : Surroundings) (s : State) : Prop := c.Lasts s ∨ s.findings = [] ∧ ∀ t ∈ c.tail.head?, Halting t

theorem Holds.of_extends (h : c.Holds t) (hst : s.Extends t) : c.Holds s := by
  rcases h with h | ⟨hquiet, h⟩
  · exact .inl (h.of_extends hst)
  · refine .inr ⟨?_, h⟩
    have hprefix := hst.findings
    rw [hquiet] at hprefix
    exact prefix_nil.mp hprefix

theorem Holds.of_eq (h : c.Holds t) (hrest : t.rest = s.rest) (hfindings : t.findings = s.findings) : c.Holds s := by
  rw [Holds, ← hfindings]
  exact h.imp (fun h => h.of_rest hrest) id

theorem Holds.lasts (h : c.Holds s) (hne : s.findings ≠ []) : c.Lasts s := h.resolve_right fun h => hne h.1

theorem Holds.reported (h : c.Holds t) (hrest : t.rest = s.rest) (hne : t.findings ≠ []) : c.Lasts s :=
  (h.lasts hne).of_rest hrest

/-- What stops at the next token stops at it in the surroundings. -/
theorem Holds.stop {p : Token → Prop} (h : c.Holds s) (hp : ∀ token ∈ s.rest.head?, p token)
    (hhalting : ∀ token, Halting token → p token) : ∀ token ∈ (c.embed s).rest.head?, p token := by
  rcases h with h | ⟨-, h⟩
  · rwa [h.head?]
  · cases hrest : s.rest with
    | nil => simpa [embed, hrest] using fun token htoken => hhalting token (h token htoken)
    | cons token rest => simpa [embed, hrest] using hp

/-! ## Steps of a state -/

theorem peek_embed (h : c.Lasts s) : (c.embed s).peek = s.peek := h.head?

theorem atMark_embed (h : c.Lasts s) (text : String) : (c.embed s).atMark text = s.atMark text := by
  rw [State.atMark, peek_embed h]
  rfl

theorem place_embed (token : Option Token) : (c.embed s).place token = s.place token := rfl

theorem newMark_embed (token : Option Token) : (c.embed s).newMark token = (s.newMark token).shift c.ids := by
  simp only [State.newMark, Mark.shift, place_embed]
  rw [embed, Nat.add_right_comm]

theorem count_embed : (c.embed s).count = c.embed s.count := by
  simp only [State.count, embed]
  rw [Nat.add_right_comm]

theorem report_embed (p : Position) (i : Issue) : (c.embed s).report p i = c.embed (s.report p i) := by
  simp [State.report, embed]

theorem reportNext_embed (h : c.Lasts s) (i : Issue) : (c.embed s).reportNext i = c.embed (s.reportNext i) := by
  rw [State.reportNext, peek_embed h, place_embed, report_embed]
  rfl

theorem advance_embed (h : c.Lasts s) : (c.embed s).advance = c.embed s.advance := by
  rcases h.cases with ⟨hs, hc⟩ | ⟨token, rest, hs, hc⟩
  · rw [State.advance, hc, State.advance, hs]
  · rw [State.advance, hc, State.advance, hs]
    rfl

theorem atMark_eq_false_iff : s.atMark text = false ↔ ∀ token ∈ s.rest.head?, token.isMark text = false := by
  rw [State.atMark, State.peek]
  cases s.rest.head? <;> simp

/-- A mark that does not come next does not come next in the surroundings. -/
theorem atMark_embed_eq_false (h : c.Holds s) (hs : s.atMark text = false)
    (hhalting : ∀ token, Halting token → token.isMark text = false) : (c.embed s).atMark text = false :=
  atMark_eq_false_iff.mpr (h.stop (atMark_eq_false_iff.mp hs) hhalting)

theorem invalidBox_embed (token : Option Token) : (c.embed s).invalidBox token = c.carry (s.invalidBox token) := by
  rw [State.invalidBox, newMark_embed, count_embed, carry, State.invalidBox, Box.shift]
  rfl

theorem fail_embed (h : c.Lasts s) (i : Issue) (token : Option Token) :
    (c.embed s).fail i token = c.carry (s.fail i token) := by
  rw [State.fail, reportNext_embed h, invalidBox_embed, State.fail]

theorem numberOf_embed (token : Token) :
    (c.embed s).numberOf token = ((s.numberOf token).1, c.embed (s.numberOf token).2) := by
  unfold State.numberOf
  cases Number.ofNumeral? token.text.toList with
  | none => simp [embed]
  | some value => rfl

/-! ## Single boxes -/

theorem rest_numberOf (s : State) (token : Token) : (s.numberOf token).2.rest = s.rest := by
  unfold State.numberOf
  split <;> rfl

theorem rest_leaf (token : Token) (s : State) : (leaf token s).2.rest = s.advance.rest := by
  unfold leaf
  split
  · exact rest_numberOf s.advance token
  · rfl
  · rfl

theorem findings_leaf (token : Token) (s : State) : (leaf token s).2.findings = s.advance.findings := by
  unfold leaf State.numberOf
  split
  · split <;> rfl
  · rfl
  · rfl

theorem leaf_embed (h : c.Lasts s) (token : Token) : leaf token (c.embed s) = c.carry (leaf token s) := by
  unfold leaf
  rw [advance_embed h]
  dsimp only
  split
  · rw [numberOf_embed, newMark_embed, count_embed]
    simp only [carry, Box.shift]
  · rw [newMark_embed, count_embed]
    simp only [carry, Box.shift]
  · rw [newMark_embed, count_embed]
    simp only [carry, Box.shift]

theorem negativeNumber_embed (h : c.Lasts s) (h' : c.Lasts s.advance) (sign token : Token) :
    negativeNumber sign token (c.embed s) = c.carry (negativeNumber sign token s) := by
  unfold negativeNumber
  rw [advance_embed h, advance_embed h', numberOf_embed]
  dsimp only
  rw [newMark_embed, count_embed]
  simp only [carry, Box.shift]

theorem arithmeticBox_embed (token : Token) (left right : Box) :
    arithmeticBox token (left.shift c.ids) (right.shift c.ids) (c.embed s)
      = c.carry (arithmeticBox token left right s) := by
  unfold arithmeticBox
  simp only [newMark_embed, count_embed, Box.invalid_shift, carry, Box.shift]
  rfl

theorem prime_embed (h : c.Lasts s) (box : Box) (token : Token) :
    prime (box.shift c.ids, c.embed s) token = c.carry (prime (box, s) token) := by
  unfold prime
  rw [advance_embed h]
  simp only [newMark_embed, count_embed, carry, Box.shift]

/-- Primes are read one at a time, so the induction is on the tokens left. -/
theorem primes_embed (box : Box) (h : c.Holds (primes box s).2) :
    primes (box.shift c.ids) (c.embed s) = c.carry (primes box s) := by
  generalize hrest : s.rest = rest
  induction rest generalizing box s with
  | nil =>
    have hstop (token : Token) (htoken : token ∈ s.rest.head?) : token.isOperator "'" = false := by
      simp [hrest] at htoken
    rw [primes_of_stop _ hstop] at h ⊢
    rw [primes_of_stop _ (h.stop hstop fun token ht => by simp [Token.isOperator, ht.operator])]
    rfl
  | cons token rest ih =>
    have hlasts : c.Lasts s := .inr (by simp [hrest])
    have hrest' : (c.embed s).rest = token :: (rest ++ c.tail) := by simp [embed, hrest]
    cases hinvalid : box.invalid with
    | true => simp [primes, hinvalid, carry]
    | false =>
      cases htoken : token.isOperator "'" with
      | false =>
        rw [primes_of_stop _ (by simp [hrest', htoken]), primes_of_stop _ (by simp [hrest, htoken])]
        rfl
      | true =>
        rw [primes_of_prime hinvalid hrest htoken] at h
        rw [primes_of_prime (by simp [hinvalid]) hrest' htoken, prime_embed hlasts,
          primes_of_prime hinvalid hrest htoken]
        exact ih _ h (by simp [prime, hrest])

/-! ## Recovery and parameters -/

/-- Skipping to the end of a statement ends within the tokens that are read alone. -/
def Stops (c : Surroundings) (s : State) : Prop :=
  skipStatement 0 (s.rest ++ c.tail) s.last
    = ((skipStatement 0 s.rest s.last).1 ++ c.tail, (skipStatement 0 s.rest s.last).2)

theorem recover_embed (h : c.Stops s) : (c.embed s).recover = c.embed s.recover := by
  have hskip : skipStatement 0 (c.embed s).rest (c.embed s).last = _ := h
  rw [State.recover, hskip]
  rfl

theorem skipStatement_append {depth : Nat} (h : tail = [] ∨ (skipStatement depth ts last).1 ≠ []) :
    skipStatement depth (ts ++ tail) last
      = ((skipStatement depth ts last).1 ++ tail, (skipStatement depth ts last).2) := by
  rcases h with rfl | h
  · simp
  induction ts generalizing depth last with
  | nil => simp [skipStatement] at h
  | cons t ts ih =>
    rw [cons_append, skipStatement, skipStatement]
    rw [skipStatement] at h
    split
    · rename_i hopen
      rw [if_pos hopen] at h
      exact ih h
    · rename_i hopen
      rw [if_neg hopen] at h
      split
      · rename_i hclose
        rw [if_pos hclose] at h
        exact ih h
      · rename_i hclose
        rw [if_neg hclose] at h
        split
        · rename_i hbrace
          rw [if_pos hbrace] at h
          split
          · rfl
          · rename_i hdepth
            rw [if_neg hdepth] at h
            exact ih h
        · rename_i hbrace
          rw [if_neg hbrace] at h
          split
          · rfl
          · rename_i hsemicolon
            rw [if_neg hsemicolon] at h
            exact ih h

theorem Lasts.stops (h : c.Lasts s.recover) : c.Stops s := skipStatement_append h

/-- If the end of a statement has to be looked for, it lies within the tokens that are read alone. -/
def Ends (c : Surroundings) (what : String) (s : State) : Prop :=
  ∀ p i, (endStatement what s).2 = (s.report p i).recover → c.Stops s

theorem endStatement_embed {what : String} (h : c.Lasts s) (hends : c.Ends what s) :
    endStatement what (c.embed s) = ((endStatement what s).1, c.embed (endStatement what s).2) := by
  unfold Ends at hends
  unfold endStatement at hends ⊢
  rcases h.cases with ⟨hs, hc⟩ | ⟨token, rest, hs, hc⟩
  · rw [hs, hc]
    rw [place_embed, report_embed]
  · rw [hs] at hends
    rw [hs, hc]
    dsimp only at hends ⊢
    have hposition : (c.embed s).last = s.last := rfl
    have hstarts : (c.embed s).startsStatement token = s.startsStatement token := rfl
    rw [hposition, hstarts]
    by_cases hsemicolon : token.isMark ";"
    · rw [if_pos hsemicolon, if_pos hsemicolon, advance_embed h]
    · rw [if_neg hsemicolon] at hends
      rw [if_neg hsemicolon, if_neg hsemicolon]
      by_cases hclose : token.isMark ")"
      · rw [if_pos hclose] at hends
        rw [if_pos hclose, if_pos hclose, report_embed, recover_embed (s := s.report _ _) (hends _ _ rfl)]
      · rw [if_neg hclose] at hends
        rw [if_neg hclose, if_neg hclose]
        by_cases hresumes : (token.isMark "\x7d" || s.startsStatement token)
        · rw [if_pos hresumes, if_pos hresumes, report_embed]
        · rw [if_neg hresumes] at hends
          rw [if_neg hresumes, if_neg hresumes, report_embed, recover_embed (s := s.report _ _) (hends _ _ rfl)]

/-- If a statement leaves tokens when it is read alone, its end lies within them. -/
theorem Lasts.ends {what : String} (h : c.Lasts (endStatement what s).2) : c.Ends what s := by
  intro p i heq
  rw [heq] at h
  exact Lasts.stops (s := s.report p i) h

theorem parametersFrom_append {names : List String} (h : tail = [] ∨ (parametersFrom names ts last).rest ≠ []) :
    parametersFrom names (ts ++ tail) last
      = { parametersFrom names ts last with rest := (parametersFrom names ts last).rest ++ tail } := by
  rcases h with rfl | h
  · simp
  fun_induction parametersFrom names ts last with
  | case1 => simp at h
  | case2 => simp at h
  | case3 names t last ht =>
    cases tail with
    | nil => simp [parametersFrom, ht]
    | cons u tail => simp [parametersFrom, ht]
  | case4 names t u rest last ht =>
    rw [cons_append, cons_append, parametersFrom, if_pos ht]
  | case5 names t u rest last ht hu ih =>
    rw [cons_append, cons_append, parametersFrom, if_neg ht, if_pos hu, ih h]
  | case6 names t u rest last ht hu hu' =>
    rw [cons_append, cons_append, parametersFrom, if_neg ht, if_neg hu, if_pos hu']
  | case7 names t u rest last ht hu hu' =>
    rw [cons_append, cons_append, parametersFrom, if_neg ht, if_neg hu, if_neg hu']

theorem parameters_embed (h : c.Lasts (parameters s).2.2) :
    parameters (c.embed s) = ((parameters s).1, (parameters s).2.1, c.embed (parameters s).2.2) := by
  have hs := h.of_extends (extends_parameters s)
  unfold parameters at h ⊢
  rw [atMark_embed hs]
  by_cases hopen : (!s.atMark "(")
  · rw [if_pos hopen, if_pos hopen]
  · rw [if_neg hopen] at h
    rw [if_neg hopen, if_neg hopen, advance_embed hs]
    dsimp only at h ⊢
    have hread : parametersFrom [] (c.embed s.advance).rest (c.embed s.advance).last
        = { parametersFrom [] s.advance.rest s.advance.last with
            rest := (parametersFrom [] s.advance.rest s.advance.last).rest ++ c.tail } := by
      apply parametersFrom_append
      cases hissue : (parametersFrom [] s.advance.rest s.advance.last).issue with
      | none =>
        rw [hissue] at h
        exact h
      | some issue =>
        rw [hissue] at h
        exact h
    rw [hread]
    generalize parametersFrom [] s.advance.rest s.advance.last = read at h ⊢
    have hembed : { c.embed s.advance with rest := read.rest ++ c.tail, last := read.last }
        = c.embed { s.advance with rest := read.rest, last := read.last } := rfl
    cases hissue : read.issue with
    | none => rw [hembed]
    | some issue =>
      rw [hissue] at h
      rw [hembed]
      dsimp only at h ⊢
      have hlasts : c.Lasts { s.advance with rest := read.rest, last := read.last } := h.of_rest rfl
      rw [reportNext_embed hlasts]

/-! ## Definitions -/

theorem header_embed (h : c.Lasts (header s).2.2) :
    header (c.embed s) = ((header s).1, (header s).2.1, c.embed (header s).2.2) := by
  have hs : c.Lasts s := h.of_extends (s.extends_advance.trans (extends_header s))
  rw [header, advance_embed hs, count_embed, parameters_embed h]
  rfl

theorem definitionOf_embed (h : c.Lasts (header s).2.2) (name : Token) (invalid : Bool) (body : Option Box)
    (stop : Position) : definitionOf name (c.embed s) invalid (body.map (Box.shift c.ids)) stop
      = (definitionOf name s invalid body stop).shift c.ids := by
  have hs : c.Lasts s := h.of_extends (s.extends_advance.trans (extends_header s))
  rw [definitionOf, advance_embed hs, newMark_embed, header_embed h, definitionOf]
  cases body with
  | none | some body => rw [Definition.shift]; rfl

end Surroundings

end Patchbay.Parser
