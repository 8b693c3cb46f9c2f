import Patchbay.Proofs.Parser.Soundness

/-!
# What derives from the grammar is read without a finding

For each nonterminal, a list of tokens that derives from it is read as the tree of the derivation, whatever
comes next, provided that the next token cannot continue it.

Operators associate to the left in the grammar and are read by loops. So the statements on operators
say that reading the operands up to a place leads to the loop at that place, with the tree of the derivation
on its left; the loop ends there when no operator of its tiers follows.
-/

namespace Patchbay.Parser

open Grammar

/-! ## Tokens by their texts -/

variable {tier tier' : Nat} {par : Bool} {s : State} {t : Token} {b left right : Phrase} {text : String}
  {value : Binary64} {op : Operator} {ts us rest : List Token} {params : List String}

theorem kind_of_isMark (h : t.isMark text) : t.kind = .punctuation := by
  have h' : t.kind = .punctuation ∧ t.text = text := by simpa [Token.isMark] using h
  exact h'.1

theorem text_of_isMark (h : t.isMark text) : t.text = text := by
  have h' : t.kind = .punctuation ∧ t.text = text := by simpa [Token.isMark] using h
  exact h'.2

theorem kind_of_isOperator (h : t.isOperator text) : t.kind = .operator := by
  have h' : t.kind = .operator ∧ t.text = text := by simpa [Token.isOperator] using h
  exact h'.1

theorem text_of_isOperator (h : t.isOperator text) : t.text = text := by
  have h' : t.kind = .operator ∧ t.text = text := by simpa [Token.isOperator] using h
  exact h'.2

theorem kind_of_isKeyword (h : t.isKeyword text) : t.kind = .keyword := by
  have h' : t.kind = .keyword ∧ t.text = text := by simpa [Token.isKeyword] using h
  exact h'.1

theorem isMark_eq_false (h : t.kind ≠ .punctuation) : t.isMark text = false := by
  simp [Token.isMark, h]

theorem isOperator_eq_false (h : t.kind ≠ .operator) : t.isOperator text = false := by
  simp [Token.isOperator, h]

theorem isKeyword_eq_false (h : t.kind ≠ .keyword) : t.isKeyword text = false := by
  simp [Token.isKeyword, h]

theorem isKeyword_of_isKeyword {text' : String} (h : t.isKeyword text) :
    t.isKeyword text' = (text == text') := by
  simp_all [Token.isKeyword]

/-! ## What may come next -/

/-- The next token is neither a number nor an opening parenthesis: it does not make a minus sign or the head
of a call out of a box that stands before it. -/
def Separates (rest : List Token) : Prop :=
  ∀ t ∈ rest.head?, t.kind ≠ .number ∧ t.isMark "(" = false

/-- The next token is no prime. -/
def PrimesStop (rest : List Token) : Prop := ∀ t ∈ rest.head?, t.isOperator "'" = false

/-- The next token does not continue an operand of compositions. -/
structure EndsOperand (rest : List Token) : Prop where
  separates : Separates rest
  primes : PrimesStop rest
  arithmetic : ArithmeticStops 0 rest

/-- The next token does not continue a composition. -/
structure EndsComposition (par : Bool) (rest : List Token) : Prop extends EndsOperand rest where
  composition : CompositionStops par 1 rest

theorem CompositionStops.mono (h : tier ≤ tier') (hstops : CompositionStops par tier rest) :
    CompositionStops par tier' rest :=
  fun t ht op hop => Nat.lt_of_lt_of_le (hstops t ht op hop) h

theorem ArithmeticStops.mono (h : tier ≤ tier') (hstops : ArithmeticStops tier rest) : ArithmeticStops tier' rest :=
  fun t ht p hp => Nat.lt_of_lt_of_le (hstops t ht p hp) h

/-- A token that is no operator ends every composition, unless it is a number or opens a parenthesis. -/
theorem endsComposition_of_kind (hop : t.kind ≠ .operator) (hnumber : t.kind ≠ .number) (hopen : t.isMark "(" = false) :
    EndsComposition par (t :: rest) where
  separates := by simp [Separates, hnumber, hopen]
  primes := by simp [PrimesStop, isOperator_eq_false hop]
  arithmetic := by simp [ArithmeticStops, arithmeticOf?, hop]
  composition := by simp [CompositionStops, compositionOf?, hop]

/-- A composition operator ends an operand. -/
theorem endsOperand_of_composition (h : IsComposition par tier t op) : EndsOperand (t :: rest) where
  separates := by simp [Separates, h.kind, Token.isMark]
  primes := by
    have htext : op.symbol ≠ "'" := by cases op <;> decide
    simp [PrimesStop, Token.isOperator, h.text, htext]
  arithmetic := by
    have hnone : arithmeticPrecedence? op.symbol = none := by cases op <;> decide
    simp [ArithmeticStops, arithmeticOf?, h.text, hnone]

/-- A comma ends an argument. -/
theorem endsComposition_of_comma (h : t.isOperator ",") :
    EndsComposition false (t :: rest) where
  toEndsOperand := by
    have hpar : IsComposition true 3 t .par :=
      ⟨kind_of_isOperator h, text_of_isOperator h, by decide, fun _ => rfl⟩
    exact endsOperand_of_composition hpar
  composition := by
    have hsymbol : Operator.ofSymbol? t.text = some .par := by
      rw [text_of_isOperator h]
      rfl
    simp [CompositionStops, compositionOf?, hsymbol]

/-- An arithmetic operator ends a postfix and all arithmetic of tighter tiers. -/
theorem ends_of_arithmetic {tier : Nat} {t : Token} {rest : List Token} (h : IsArithmetic tier t) :
    Separates (t :: rest) ∧ PrimesStop (t :: rest) ∧ ArithmeticStops (tier + 1) (t :: rest) := by
  have htier := (arithmeticOf?_eq_some_iff t tier).mpr h
  refine ⟨by simp [Separates, h.kind, Token.isMark], ?_, by simp [ArithmeticStops, htier]⟩
  have htext : t.text ≠ "'" := by
    intro heq
    have hnone : arithmeticPrecedence? "'" = none := by decide
    rw [← heq, (arithmeticPrecedence?_eq_some_iff _ _).mpr h.text] at hnone
    exact Option.some_ne_none _ hnone
  simp [PrimesStop, Token.isOperator, htext]

/-! ## Where reading leads -/

/-- Reading leads from one state to another, with `rest` left and nothing reported. -/
structure State.Moves (s t : State) (rest : List Token) : Prop where
  rest : t.rest = rest
  depth : t.depth = s.depth
  findings : t.findings = s.findings
  oversized : t.oversized = s.oversized
  starved : t.starved = s.starved

namespace State.Moves

theorem refl (s : State) : s.Moves s s.rest := ⟨rfl, rfl, rfl, rfl, rfl⟩

theorem trans {t u : State} {rest' : List Token} (h : s.Moves t rest) (h' : t.Moves u rest') : s.Moves u rest' :=
  ⟨h'.rest, h'.depth.trans h.depth, h'.findings.trans h.findings, h'.oversized.trans h.oversized,
    h'.starved.trans h.starved⟩

theorem levels {t : State} (h : s.Moves t rest) (d : Int) : t.levels d = s.levels d := by
  simp [State.levels, h.depth]

theorem advance {t : State} {token : Token} (h : s.Moves t (token :: rest)) : s.Moves t.advance rest :=
  ⟨by simp [h.rest], by simp [h.depth], by simp [h.findings], by simp [h.oversized], by simp [h.starved]⟩

theorem count {t : State} (h : s.Moves t rest) : s.Moves t.count rest :=
  ⟨h.rest, h.depth, h.findings, h.oversized, h.starved⟩

end State.Moves

/-- Reading gives a valid box with the tree `b`. -/
structure Yields (s : State) (rest : List Token) (b : Phrase) (read : Box × State) : Prop
    extends s.Moves read.2 rest where
  valid : read.1.invalid = false
  phrase : read.1.phrase = b

/-! ## Statements for each nonterminal -/

section

variable (d : Int)

/-- Reading tokens of a nonterminal before `rest`. -/
structure Ready (n : Nat) (ts rest : List Token) (s : State) : Prop where
  rest : s.rest = ts ++ rest
  levels : s.levels d = n

/-- Reading a composition and the blocks after it leads to the loop over blocks. -/
def CompleteExpression (n : Nat) (par : Bool) (ts : List Token) (b : Phrase) : Prop :=
  ∀ s rest, Ready d n ts rest s → EndsComposition par rest → ∃ first t read, Yields s rest b read ∧
    Gives d (.composition 1 par) s first t ∧
    ∀ r u, Gives d (.blocks read.1) read.2 r u → Gives d (.blocks first) t r u

/-- Reading operands of a tier leads to the loop over composition operators. -/
def CompleteComposition (n : Nat) (par : Bool) (tier : Nat) (ts : List Token) (b : Phrase) : Prop :=
  ∀ least s rest, Ready d n ts rest s → least ≤ tier → EndsOperand rest → CompositionStops par (tier + 1) rest →
    ∃ read, Yields s rest b read ∧
      ∀ r u, Gives d (.compositionRest least par read.1) read.2 r u → Gives d (.composition least par) s r u

/-- Reading operands of a tier leads to the loop over arithmetic operators. -/
def CompleteArithmetic (n tier : Nat) (ts : List Token) (b : Phrase) : Prop :=
  ∀ least s rest, Ready d n ts rest s → least ≤ tier → Separates rest → PrimesStop rest →
    ArithmeticStops (tier + 1) rest → ∃ read, Yields s rest b read ∧
      ∀ r u, Gives d (.arithmeticRest least read.1) read.2 r u → Gives d (.arithmetic least) s r u

/-- Reading a box with primes leads to the primes after it. -/
def CompletePostfix (n : Nat) (ts : List Token) (b : Phrase) : Prop :=
  ∀ s rest, Ready d n ts rest s → Separates rest → ∃ box t read, Gives d .primary s box t ∧ Yields s rest b read ∧
    primes box t = primes read.1 read.2

/-- A single box is read as its tree. -/
def CompletePrimary (n : Nat) (ts : List Token) (b : Phrase) : Prop :=
  ∀ s rest, Ready d n ts rest s → Separates rest → ∃ read, Gives d .primary s read.1 read.2 ∧ Yields s rest b read

/-- Arguments are read up to the closing parenthesis. -/
def CompleteArguments (n : Nat) (ts : List Token) (bs : List Phrase) : Prop :=
  ∀ name opening args s closing rest, Ready d n ts (closing :: rest) s → closing.isMark ")" = true →
    ∃ boxes t, Gives d (.arguments name opening args) s (boxes, true) t ∧ s.Moves t rest ∧
      Box.phrases boxes = Box.phrases args ++ bs

/-- A definition is read to its end. -/
def CompleteDefinition (n : Nat) (ts : List Token) (e : Phrase) : Prop :=
  ∃ name us, ts = name :: us ∧ name.kind = .identifier ∧ ∀ s rest, Ready d n ts rest s →
    ∃ definition t, Gives d (.definition name) s definition t ∧ s.Moves t rest ∧ definition.phrase = e

/-- Local definitions are read up to the closing brace. -/
def CompleteDefinitions (n : Nat) (ts : List Token) (es : List Phrase) : Prop :=
  ∀ locals s closing rest, Ready d n ts (closing :: rest) s → closing.isMark "\x7d" = true →
    ∃ definitions t, Gives d (.localDefinitions locals) s definitions t ∧ s.Moves t (closing :: rest) ∧
      Definition.phrases definitions = Definition.phrases locals ++ es

end

variable {d : Int} {n : Nat}

theorem State.Moves.ready {t : State} {vs : List Token} (h : s.Moves t (ts ++ rest)) (hready : Ready d n us vs s) :
    Ready d n ts rest t :=
  ⟨h.rest, (h.levels d).trans hready.levels⟩

/-! ## Operators -/

theorem CompleteComposition.operand (h : CompleteArithmetic d n 5 ts b) : CompleteComposition d n par 5 ts b := by
  intro least s rest hready _ hends _
  obtain ⟨read, hyields, hread⟩ := h 0 s rest hready (by omega) hends.separates hends.primes
    (hends.arithmetic.mono (by omega))
  obtain ⟨_, hleft⟩ := hread _ _ ⟨_, .arithmeticDone (.inr (by rw [hyields.rest]; exact hends.arithmetic))⟩
  exact ⟨read, hyields, fun r u ⟨_, hmore⟩ => ⟨_, .composition hleft hmore⟩⟩

theorem CompleteComposition.tighter (h : CompleteComposition d n par (tier + 1) ts b) :
    CompleteComposition d n par tier ts b := by
  intro least s rest hready hleast hends hstops
  exact h least s rest hready (by omega) hends (hstops.mono (by omega))

theorem CompleteComposition.join (hleft : CompleteComposition d n par tier ts left) (ht : IsComposition par tier t op)
    (hright : CompleteComposition d n par (tier + 1) us right) :
    CompleteComposition d n par tier (ts ++ t :: us) (.compose op left right) := by
  intro least s rest hready hleast hends hstops
  have hrest : s.rest = ts ++ (t :: (us ++ rest)) := by simp [hready.rest]
  obtain rfl : op.precedence = tier := (mem_compositionTier_iff op tier).mp ht.tier
  have hop := (compositionOf?_eq_some_iff par t op).mpr ht
  -- Behind the left operand stands an operator of this tier, which a tighter loop leaves alone.
  obtain ⟨read, hyields, hread⟩ := hleft least s (t :: (us ++ rest)) ⟨hrest, hready.levels⟩ hleast
    (endsOperand_of_composition ht) (by simp [CompositionStops, hop])
  -- The right operand starts after the operator and is read up to the same place.
  have hmoves := hyields.toMoves.advance
  obtain ⟨read', hyields', hread'⟩ := hright (op.precedence + 1) read.2.advance rest (hmoves.ready hready)
    (by omega) hends (hstops.mono (by omega))
  obtain ⟨_, hoperand⟩ := hread' _ _ ⟨_, .compositionDone (.inr (by rw [hyields'.rest]; exact hstops))⟩
  refine ⟨(.compose { read'.2.newMark t with invalid := read'.1.invalid } op read.1 read'.1, read'.2.count), ?_, ?_⟩
  · exact { toMoves := (hmoves.trans hyields'.toMoves).count, valid := hyields'.valid,
            phrase := by simp [Box.phrase, hyields.phrase, hyields'.phrase] }
  · rintro r u ⟨_, hmore⟩
    exact hread r u ⟨_, .compose hyields.valid hyields.rest hop hleast hoperand hmore⟩

theorem CompleteArithmetic.operand (h : CompletePostfix d n ts b) : CompleteArithmetic d n 9 ts b := by
  intro least s rest hready _ hseparates hprimes _
  obtain ⟨box, t, read, ⟨_, hbox⟩, hyields, heq⟩ := h s rest hready hseparates
  have hstop : primes box t = read := by
    rw [heq]
    exact primes_of_stop read.1 (by rw [hyields.rest]; exact hprimes)
  subst hstop
  exact ⟨_, hyields, fun r u ⟨_, hmore⟩ => ⟨_, .arithmetic hbox hmore⟩⟩

theorem CompleteArithmetic.tighter (h : CompleteArithmetic d n (tier + 1) ts b) : CompleteArithmetic d n tier ts b := by
  intro least s rest hready hleast hseparates hprimes hstops
  exact h least s rest hready (by omega) hseparates hprimes (hstops.mono (by omega))

theorem CompleteArithmetic.join (hleft : CompleteArithmetic d n tier ts left) (ht : IsArithmetic tier t)
    (hright : CompleteArithmetic d n (tier + 1) us right) :
    CompleteArithmetic d n tier (ts ++ t :: us) (Grammar.arithmetic t.text left right) := by
  intro least s rest hready hleast hseparates hprimes hstops
  have hrest : s.rest = ts ++ (t :: (us ++ rest)) := by simp [hready.rest]
  have hop := (arithmeticOf?_eq_some_iff t tier).mpr ht
  obtain ⟨hseparatesT, hprimesT, hstopsT⟩ := @ends_of_arithmetic tier t (us ++ rest) ht
  obtain ⟨read, hyields, hread⟩ := hleft least s (t :: (us ++ rest)) ⟨hrest, hready.levels⟩ hleast hseparatesT
    hprimesT hstopsT
  have hmoves := hyields.toMoves.advance
  obtain ⟨read', hyields', hread'⟩ := hright (tier + 1) read.2.advance rest (hmoves.ready hready) (by omega)
    hseparates hprimes (hstops.mono (by omega))
  obtain ⟨_, hoperand⟩ := hread' _ _ ⟨_, .arithmeticDone (.inr (by rw [hyields'.rest]; exact hstops))⟩
  refine ⟨arithmeticBox t read.1 read'.1 read'.2, ?_, ?_⟩
  · exact { toMoves := (hmoves.trans hyields'.toMoves).count.count.count, valid := hyields'.valid,
            phrase := by simp [arithmeticBox, Grammar.arithmetic, Box.phrase, hyields.phrase, hyields'.phrase] }
  · rintro r u ⟨_, hmore⟩
    exact hread r u ⟨_, .operate hyields.valid hyields.rest hop hleast hoperand hmore⟩

theorem CompletePostfix.primary (h : CompletePrimary d n ts b) : CompletePostfix d n ts b := by
  intro s rest hready hseparates
  obtain ⟨read, hread, hyields⟩ := h s rest hready hseparates
  exact ⟨_, _, read, hread, hyields, rfl⟩

theorem CompletePostfix.prime (h : CompletePostfix d n ts b) (ht : t.isOperator "'") :
    CompletePostfix d n (ts ++ [t]) (delayed b) := by
  intro s rest hready _
  have hrest : s.rest = ts ++ (t :: rest) := by simp [hready.rest]
  have hseparates : Separates (t :: rest) := by simp [Separates, kind_of_isOperator ht, Token.isMark]
  obtain ⟨box, u, read, hbox, hyields, heq⟩ := h s (t :: rest) ⟨hrest, hready.levels⟩ hseparates
  refine ⟨box, u, Parser.prime read t, hbox, ?_, ?_⟩
  · exact { toMoves := hyields.toMoves.advance.count.count, valid := rfl,
            phrase := by simp [Parser.prime, delayed, Box.phrase, hyields.phrase] }
  · rw [heq, primes_of_prime hyields.valid hyields.rest ht]

/-! ## Single boxes -/

theorem atMark_advance_eq_false (hrest : s.rest = t :: rest) (h : ∀ u ∈ rest.head?, u.isMark text = false) :
    s.advance.atMark text = false := by
  cases rest with
  | nil => simp [State.atMark, State.peek, hrest]
  | cons u rest => simpa [State.atMark, State.peek, hrest] using h u (by simp)

theorem atMark_of_rest (hrest : s.rest = t :: rest) : s.atMark text = t.isMark text := by
  simp [State.atMark, State.peek, hrest]

/-- A token that is no number is read by `leaf` as the tree of its kind. -/
theorem yields_leaf (hrest : s.rest = t :: rest) (hnumber : t.kind ≠ .number)
    (hstring : t.kind = .string → b = .string (unquote t.text)) (hname : t.kind ≠ .string → b = .name t.text) :
    Yields s rest b (leaf t s) := by
  have hmoves : s.Moves s.advance.count rest :=
    (State.Moves.advance (by rw [← hrest]; exact .refl s)).count
  unfold leaf
  split
  · rename_i hkind
    exact absurd hkind hnumber
  · rename_i hkind
    exact { toMoves := hmoves, valid := rfl, phrase := (hstring hkind).symm }
  · rename_i hkind
    exact { toMoves := hmoves, valid := rfl, phrase := (hname hkind).symm }

theorem numberOf_of_some (h : Number.ofNumeral? t.text.toList = some value) : s.numberOf t = (value, s) := by
  simp [State.numberOf, h]

theorem Ready.cons {t : Token} {ts rest : List Token} {s : State} (h : Ready d n (t :: ts) rest s) :
    s.Moves s.advance (ts ++ rest) := by
  have hrest : s.rest = t :: (ts ++ rest) := h.rest
  exact State.Moves.advance (by rw [← hrest]; exact .refl s)

theorem CompletePrimary.name (hkind : t.kind = .identifier) : CompletePrimary d n [t] (.name t.text) := by
  intro s rest hready hseparates
  have hrest : s.rest = t :: rest := hready.rest
  have hopen := atMark_advance_eq_false hrest fun u hu => (hseparates u hu).2
  exact ⟨_, ⟨_, .leaf hrest (.inl ⟨hkind, hopen⟩)⟩,
    yields_leaf hrest (by simp [hkind]) (by simp [hkind]) fun _ => rfl⟩

theorem CompletePrimary.number (hkind : t.kind = .number) (hvalue : Number.ofNumeral? t.text.toList = some value) :
    CompletePrimary d n [t] (.number value t.text) := by
  intro s rest hready _
  refine ⟨_, ⟨_, .leaf hready.rest (.inr (.inl hkind))⟩, ?_⟩
  simp only [leaf, hkind, numberOf_of_some hvalue]
  exact { toMoves := hready.cons.count, valid := rfl, phrase := rfl }

theorem CompletePrimary.negative {sign t : Token} {value : Binary64}
    (hsign : sign.isOperator "-") (hkind : t.kind = .number)
    (hvalue : Number.ofNumeral? t.text.toList = some value) :
    CompletePrimary d n [sign, t] (.number (-value) ("-" ++ t.text)) := by
  intro s rest hready _
  refine ⟨_, ⟨_, .negative hready.rest hsign hkind⟩, ?_⟩
  simp only [negativeNumber, numberOf_of_some hvalue]
  exact { toMoves := hready.cons.advance.count, valid := rfl, phrase := rfl }

theorem CompletePrimary.string (hkind : t.kind = .string) : CompletePrimary d n [t] (.string (unquote t.text)) := by
  intro s rest hready _
  exact ⟨_, ⟨_, .leaf hready.rest (.inr (.inr (.inl hkind)))⟩,
    yields_leaf hready.rest (by simp [hkind]) (fun _ => rfl) (by simp [hkind])⟩

/-- A box written as an operator is a leaf unless a parenthesis follows. -/
theorem yields_operatorBox (hbox : isOperatorBox t) : CompletePrimary d n [t] (.name t.text) := by
  intro s rest hready hseparates
  have hrest : s.rest = t :: rest := hready.rest
  have hkind := kind_of_isOperatorBox hbox
  -- Where a single box ends no number follows, so a minus sign here is a box of its own.
  have hnegative : startsNegative s.rest = false := by
    rw [hrest]
    cases rest with
    | nil => rfl
    | cons u rest => simp [startsNegative, (hseparates u (by simp)).1]
  have hopen := atMark_advance_eq_false hrest fun u hu => (hseparates u hu).2
  exact ⟨_, ⟨_, .leaf hrest (.inr (.inr (.inr ⟨hbox, hnegative, .inr hopen⟩)))⟩,
    yields_leaf hrest (by simp [hkind]) (by simp [hkind]) fun _ => rfl⟩

/-! ## Expressions -/

/-- An expression is read to its end, when neither an operator nor a block follows. -/
theorem CompleteExpression.yields (h : CompleteExpression d n par ts b) (hready : Ready d (n + 1) ts rest s)
    (hends : EndsComposition par rest) (hblocks : BlocksStop rest) :
    ∃ read, Gives d (.expression par) s read.1 read.2 ∧ Yields s rest b read := by
  have hlevels := hready.levels
  -- A level is left for this expression, and one less for what is inside it.
  have hdeep : (s.enter.depth : Int) ≤ d := by
    simp only [State.levels, State.enter] at *
    omega
  have hlevels' : s.enter.levels d = n := Nat.succ.inj ((levels_enter hdeep).symm.trans hlevels)
  obtain ⟨_, _, read, hyields, ⟨_, hbox⟩, hread⟩ := h s.enter rest ⟨hready.rest, hlevels'⟩ hends
  obtain ⟨_, hmore⟩ := hread _ _ ⟨_, .blocksDone (.inr (by rw [hyields.rest]; exact hblocks))⟩
  refine ⟨(read.1, read.2.leave), ⟨_, .expression hdeep hbox hmore⟩, ?_⟩
  exact { hyields with depth := by simp [State.leave, hyields.depth, State.enter] }

theorem CompleteExpression.composition (h : CompleteComposition d n par 1 ts b) : CompleteExpression d n par ts b := by
  intro s rest hready hends
  obtain ⟨read, hyields, hread⟩ :=
    h 1 s rest hready (by omega) hends.toEndsOperand (hends.composition.mono (by omega))
  exact ⟨_, _, read, hyields,
    hread _ _ ⟨_, .compositionDone (.inr (by rw [hyields.rest]; exact hends.composition))⟩, fun _ _ hmore => hmore⟩

variable {par : Bool}

variable {ts us : List Token}

theorem CompleteExpression.block {b : Phrase} {es : List Phrase}
    {keyword opening closing : Token} (h : CompleteExpression d n par ts b)
    (hkeyword : keyword.isKeyword "with") (hopening : opening.isMark "\x7b")
    (hlocals : CompleteDefinitions d n us es) (hclosing : closing.isMark "\x7d") :
    CompleteExpression d n par (ts ++ keyword :: opening :: (us ++ [closing])) (.block b es) := by
  intro s rest hready hends
  have hrest : s.rest = ts ++ (keyword :: opening :: (us ++ closing :: rest)) := by
    simp [hready.rest]
  have hkind := kind_of_isKeyword hkeyword
  obtain ⟨first, t, read, hyields, hfirst, hread⟩ := h s _ ⟨hrest, hready.levels⟩
    (endsComposition_of_kind (by simp [hkind]) (by simp [hkind]) (isMark_eq_false (by simp [hkind])))
  -- The block starts after its keyword and the opening brace.
  have hmoves : s.Moves read.2.advance.advance.count (us ++ closing :: rest) :=
    hyields.toMoves.advance.advance.count
  obtain ⟨locals, u, ⟨_, hgives⟩, hmoves', hphrases⟩ := hlocals [] _ closing rest (hmoves.ready hready) hclosing
  have hopen : read.2.advance.atMark "\x7b" := by
    rw [atMark_of_rest hyields.toMoves.advance.rest]
    exact hopening
  refine ⟨first, t, (.block (read.2.advance.advance.newMark keyword) read.1 locals, u.advance), ?_, hfirst, ?_⟩
  · exact { toMoves := (hmoves.trans hmoves').advance, valid := rfl,
            phrase := by simp [Box.phrase, hyields.phrase, hphrases, Definition.phrases] }
  · rintro r v ⟨_, hmore⟩
    exact hread r v ⟨_, .block hyields.valid hyields.rest hkeyword hopen hgives (by simp [hmoves'.rest]) hmore⟩

theorem endsComposition_of_close {closing : Token} {rest : List Token}
    (h : closing.isMark ")") :
    EndsComposition par (closing :: rest) ∧ BlocksStop (closing :: rest) := by
  have hkind := kind_of_isMark h
  refine ⟨endsComposition_of_kind (by simp [hkind]) (by simp [hkind]) ?_, ?_⟩
  · simp [Token.isMark, text_of_isMark h]
  · have hkeyword : closing.isKeyword "with" = false := isKeyword_eq_false (by simp [hkind])
    simp [BlocksStop, hkeyword]

theorem CompletePrimary.parentheses {opening closing : Token} (hopening : opening.isMark "(")
    (h : CompleteExpression d n true ts b) (hclosing : closing.isMark ")") :
    CompletePrimary d (n + 1) (opening :: (ts ++ [closing])) b := by
  intro s rest hready _
  have hrest : s.rest = opening :: (ts ++ closing :: rest) := by simp [hready.rest]
  have hmoves : s.Moves s.advance (ts ++ closing :: rest) := by simpa using hready.cons
  obtain ⟨hends, hblocks⟩ := @endsComposition_of_close true closing rest hclosing
  obtain ⟨read, ⟨_, hinner⟩, hyields⟩ := h.yields (hmoves.ready hready) hends hblocks
  refine ⟨(read.1, read.2.advance), ⟨_, .parenthesis hrest hopening hinner hyields.valid ?_⟩, ?_⟩
  · rw [atMark_of_rest hyields.rest]
    exact hclosing
  · exact { toMoves := (hmoves.trans hyields.toMoves).advance, valid := hyields.valid, phrase := hyields.phrase }

/-! ## Calls -/

/-- The tokens start with one that is no closing parenthesis. -/
def StartsBox (ts : List Token) : Prop := ∃ t us, ts = t :: us ∧ t.isMark ")" = false

theorem StartsBox.append (h : StartsBox ts) (us : List Token) : StartsBox (ts ++ us) := by
  obtain ⟨t, vs, rfl, ht⟩ := h
  exact ⟨t, vs ++ us, rfl, ht⟩

theorem startsBox_of_kind (h : t.kind ≠ .punctuation) : StartsBox (t :: ts) :=
  ⟨t, ts, rfl, isMark_eq_false h⟩

theorem kind_ne_of_isCallable (h : IsCallable t) : t.kind ≠ .punctuation := by
  rcases h with h | ⟨_, h⟩
  · simp [h]
  · simp [h.kind]

theorem startsBox_primary (h : Primary n ts b) : StartsBox ts := by
  cases h with
  | name h => exact startsBox_of_kind (by simp [h])
  | number h _ => exact startsBox_of_kind (by simp [h])
  | negative h _ _ => exact startsBox_of_kind (by simp [kind_of_isOperator h])
  | string h => exact startsBox_of_kind (by simp [h])
  | parentheses h _ _ => exact ⟨_, _, rfl, by simp [Token.isMark, text_of_isMark h]⟩
  | operator h => exact startsBox_of_kind (by simp [h.kind])
  | cut h => exact startsBox_of_kind (by simp [kind_of_isOperator h])
  | call h _ _ _ => exact startsBox_of_kind (kind_ne_of_isCallable h)

theorem startsBox_postfixed {ts : List Token} {b : Phrase} : Postfix n ts b → StartsBox ts
  | .primary h => startsBox_primary h
  | .prime h _ => (startsBox_postfixed h).append _

theorem startsBox_arithmetic {tier : Nat} {ts : List Token} {b : Phrase} :
    Arithmetic n tier ts b → StartsBox ts
  | .operand h => startsBox_postfixed h
  | .tighter h => startsBox_arithmetic h
  | .join h _ _ => (startsBox_arithmetic h).append _

theorem startsBox_composition {tier : Nat} {ts : List Token} {b : Phrase} :
    Composition n par tier ts b → StartsBox ts
  | .operand h => startsBox_arithmetic h
  | .tighter h => startsBox_composition h
  | .join h _ _ => (startsBox_composition h).append _

theorem startsBox_expression {m : Nat} {ts : List Token} {b : Phrase} :
    Expression m par ts b → StartsBox ts
  | .composition h => startsBox_composition h
  | .block h _ _ _ _ => (startsBox_expression h).append _

variable {bs : List Phrase}

theorem startsBox_arguments (h : Grammar.Arguments n ts bs) : StartsBox ts := by
  cases h with
  | last h => exact startsBox_expression h
  | more h _ _ => exact (startsBox_expression h).append _

theorem CompleteArguments.last {ts : List Token} {b : Phrase} (h : CompleteExpression d n false ts b) :
    CompleteArguments d (n + 1) ts [b] := by
  intro name opening args s closing rest hready hclosing
  obtain ⟨hends, hblocks⟩ := @endsComposition_of_close false closing rest hclosing
  obtain ⟨read, ⟨_, hargument⟩, hyields⟩ := h.yields hready hends hblocks
  exact ⟨_, _, ⟨_, .argumentsEnd hargument hyields.valid hyields.rest hclosing⟩, hyields.toMoves.advance,
    by simp [Box.phrases_eq_map, hyields.phrase]⟩

theorem CompleteArguments.more {comma : Token} {b : Phrase}
    (h : CompleteExpression d n false ts b) (hcomma : comma.isOperator ",")
    (hmore : CompleteArguments d (n + 1) us bs) :
    CompleteArguments d (n + 1) (ts ++ comma :: us) (b :: bs) := by
  intro name opening args s closing rest hready hclosing
  have hrest : s.rest = ts ++ (comma :: (us ++ closing :: rest)) := by simp [hready.rest]
  have hkeyword : comma.isKeyword "with" = false := isKeyword_eq_false (by simp [kind_of_isOperator hcomma])
  obtain ⟨read, ⟨_, hargument⟩, hyields⟩ := h.yields ⟨hrest, hready.levels⟩ (endsComposition_of_comma hcomma)
    (by simp [BlocksStop, hkeyword])
  have hmoves := hyields.toMoves.advance
  obtain ⟨boxes, t, ⟨_, hgives⟩, hmoves', hphrases⟩ :=
    hmore name opening (args ++ [read.1]) _ closing rest (hmoves.ready hready) hclosing
  refine ⟨boxes, t, ⟨_, .argumentsMore hargument hyields.valid hyields.rest hcomma hgives⟩, hmoves.trans hmoves', ?_⟩
  rw [hphrases]
  simp [Box.phrases_eq_map, hyields.phrase]

/-- What can be called stands before its parenthesis as the head of a call. -/
theorem callAt_of_isCallable (ht : IsCallable t) (hopen : s.advance.atMark "(") : CallAt t s := by
  refine ⟨?_, hopen⟩
  rcases ht with hkind | ⟨tier, harith⟩
  · exact .inl hkind
  · refine .inr ⟨(isOperatorBox_iff t).mpr (.inl ⟨tier, harith⟩), fun heq => ?_⟩
    -- The cut is no arithmetic operator.
    have hnone : arithmeticPrecedence? "!" = none := by decide
    rw [← heq, (arithmeticPrecedence?_eq_some_iff _ _).mpr harith.text] at hnone
    exact Option.some_ne_none _ hnone

theorem CompletePrimary.call {t opening closing : Token} {ts : List Token}
    (ht : IsCallable t) (hopening : opening.isMark "(") (hstarts : StartsBox ts)
    (h : CompleteArguments d n ts bs) (hclosing : closing.isMark ")") :
    CompletePrimary d n (t :: opening :: (ts ++ [closing])) (.call t.text bs) := by
  intro s rest hready _
  have hrest : s.rest = t :: opening :: (ts ++ closing :: rest) := by simp [hready.rest]
  have hmoves : s.Moves s.advance.advance.count (ts ++ closing :: rest) := by simpa using hready.cons.advance.count
  have hopen : s.advance.atMark "(" := by
    rw [atMark_of_rest (State.rest_advance_of_rest hrest)]
    exact hopening
  -- No argument starts with a closing parenthesis, so the list is not taken for an empty one.
  have hnonempty : s.advance.advance.count.atMark ")" = false := by
    obtain ⟨u, us, rfl, hu⟩ := hstarts
    rw [atMark_of_rest hmoves.rest]
    exact hu
  obtain ⟨boxes, u, ⟨_, hargs⟩, hmoves', hphrases⟩ :=
    h t.text (s.advance.place s.advance.peek) [] _ closing rest (hmoves.ready hready) hclosing
  refine ⟨(.call { s.advance.advance.newMark t with invalid := !true } t.text boxes, u),
    ⟨_, .call hrest (callAt_of_isCallable ht hopen) hnonempty hargs⟩, ?_⟩
  exact { toMoves := hmoves.trans hmoves', valid := rfl, phrase := by simp [Box.phrase, hphrases, Box.phrases] }

/-! ## Definitions -/

theorem parametersFrom_of_derives (h : Grammar.Parameters ts params) (names : List String) (last : Option Token)
    (closing : Token) (rest : List Token) (hclosing : closing.isMark ")") :
    parametersFrom names (ts ++ closing :: rest) last = ⟨names ++ params, rest, some closing, none⟩ := by
  have hcomma : closing.isOperator "," = false :=
    isOperator_eq_false (by simp [kind_of_isMark hclosing])
  induction h generalizing names last with
  | last ht => simp [parametersFrom, (isParameter_iff _).mpr ht, hcomma, hclosing]
  | more ht hc _ ih => simp [parametersFrom, (isParameter_iff _).mpr ht, hc, ih]

theorem parameters_of_derives (h : ParameterList ts params) (hrest : s.rest = ts ++ t :: rest)
    (ht : t.kind ≠ .punctuation) : ∃ u, parameters s = (params, true, u) ∧ s.Moves u (t :: rest) := by
  cases h with
  | none =>
    have hopen : s.atMark "(" = false := by
      rw [atMark_of_rest hrest]
      exact isMark_eq_false ht
    refine ⟨s, by simp [parameters, hopen], ?_⟩
    rw [List.nil_append] at hrest
    rw [← hrest]
    exact .refl s
  | some hopening hparams hclosing =>
    rename_i opening closing us
    have hrest' : s.rest = opening :: (us ++ closing :: (t :: rest)) := by simp [hrest]
    have hopen : s.atMark "(" := by
      rw [atMark_of_rest hrest']
      exact hopening
    have hadvance : s.advance.rest = us ++ closing :: (t :: rest) := by simp [hrest']
    refine ⟨{ s.advance with rest := t :: rest, last := some closing }, ?_, ?_⟩
    · simp only [parameters, hopen, Bool.not_true, Bool.false_eq_true, if_false, hadvance,
        parametersFrom_of_derives hparams [] _ closing (t :: rest) hclosing, List.nil_append]
    · exact ⟨rfl, by simp, by simp, by simp, by simp⟩

theorem endStatement_of_semicolon {what : String} (hrest : s.rest = t :: rest) (ht : t.isMark ";") :
    endStatement what s = (true, s.advance) := by
  simp [endStatement, hrest, ht]

theorem CompleteDefinition.intro {name equals semicolon : Token} {us ts : List Token}
    {params : List String} {b : Phrase} (hname : name.kind = .identifier)
    (hparams : ParameterList us params) (hequals : equals.isOperator "=")
    (h : CompleteExpression d n true ts b) (hsemicolon : semicolon.isMark ";") :
    CompleteDefinition d (n + 1) (name :: (us ++ equals :: (ts ++ [semicolon])))
      (.definition name.text params (some b)) := by
  refine ⟨name, _, rfl, hname, ?_⟩
  intro s rest hready
  have hmoves : s.Moves s.advance.count (us ++ equals :: (ts ++ semicolon :: rest)) := by
    simpa using hready.cons.count
  obtain ⟨t, hread, hmoves'⟩ := parameters_of_derives hparams hmoves.rest (by simp [kind_of_isOperator hequals])
  have hheader : header s = (params, true, t) := hread
  have hmoves'' := hmoves.trans hmoves'.advance
  have hkind := kind_of_isMark hsemicolon
  have hends : EndsComposition true (semicolon :: rest) :=
    endsComposition_of_kind (by simp [hkind]) (by simp [hkind])
      (by simp [Token.isMark, text_of_isMark hsemicolon])
  have hblocks : BlocksStop (semicolon :: rest) := by
    have hkeyword : semicolon.isKeyword "with" = false := isKeyword_eq_false (by simp [hkind])
    simp [BlocksStop, hkeyword]
  obtain ⟨read, ⟨_, hbody⟩, hyields⟩ := h.yields (hmoves''.ready hready) hends hblocks
  refine ⟨_, _, ⟨_, .definition (by rw [hheader]) ?_ (by rw [hheader]; exact hbody) hyields.valid⟩, ?_, ?_⟩
  · simp [hheader, State.peek, hmoves'.rest, hequals]
  · rw [definitionEnd, endStatement_of_semicolon hyields.rest hsemicolon]
    exact (hmoves''.trans hyields.toMoves).advance
  · simp [definitionOf, Definition.phrase, hyields.phrase, hheader]

theorem CompleteDefinitions.nil : CompleteDefinitions d n [] [] := by
  intro locals s closing rest hready hclosing
  have hrest : s.rest = closing :: rest := hready.rest
  refine ⟨locals, s, ⟨_, .localsDone (by simp [hrest, hclosing])⟩, ?_, (List.append_nil _).symm⟩
  rw [← hrest]
  exact .refl s

theorem CompleteDefinitions.cons {e : Phrase} {es : List Phrase}
    (h : CompleteDefinition d n ts e) (hmore : CompleteDefinitions d n us es) :
    CompleteDefinitions d n (ts ++ us) (e :: es) := by
  intro locals s closing rest hready hclosing
  obtain ⟨name, vs, rfl, hname, hread⟩ := h
  have hrest : s.rest = (name :: vs) ++ (us ++ closing :: rest) := by simp [hready.rest]
  obtain ⟨e, t, ⟨_, hdefinition⟩, hmoves, hphrase⟩ := hread s (us ++ closing :: rest) ⟨hrest, hready.levels⟩
  obtain ⟨definitions, u, ⟨_, hgives⟩, hmoves', hphrases⟩ :=
    hmore (locals ++ [e]) _ closing rest (hmoves.ready hready) hclosing
  refine ⟨definitions, u, ⟨_, .localsMore hrest hname hdefinition hgives⟩, hmoves.trans hmoves', ?_⟩
  rw [hphrases]
  simp [Definition.phrases_eq_map, hphrase]

/-! ## All nonterminals -/

mutual

theorem completeExpression {n : Nat} {par : Bool} {ts : List Token} {b : Phrase} :
    Expression n par ts b → ∃ m, n = m + 1 ∧ CompleteExpression d m par ts b
  | .composition h => ⟨_, rfl, .composition (completeComposition h)⟩
  | .block h hkeyword hopening hlocals hclosing => by
    have hlocals' := completeDefinitions hlocals
    obtain ⟨m, hm, hcomplete⟩ := completeExpression h
    obtain rfl := Nat.succ.inj hm
    exact ⟨_, rfl, hcomplete.block hkeyword hopening hlocals' hclosing⟩

theorem completeComposition {n : Nat} {par : Bool} {tier : Nat} {ts : List Token} {b : Phrase} :
    Composition n par tier ts b → CompleteComposition d n par tier ts b
  | .operand h => .operand (completeArithmetic h)
  | .tighter h => (completeComposition h).tighter
  | .join hleft ht hright => (completeComposition hleft).join ht (completeComposition hright)

theorem completeArithmetic {n : Nat} {tier : Nat} {ts : List Token} {b : Phrase} :
    Arithmetic n tier ts b → CompleteArithmetic d n tier ts b
  | .operand h => .operand (completePostfix h)
  | .tighter h => (completeArithmetic h).tighter
  | .join hleft ht hright => (completeArithmetic hleft).join ht (completeArithmetic hright)

theorem completePostfix {n : Nat} {ts : List Token} {b : Phrase} : Postfix n ts b → CompletePostfix d n ts b
  | .primary h => .primary (completePrimary h)
  | .prime h ht => (completePostfix h).prime ht

theorem completePrimary {n : Nat} {ts : List Token} {b : Phrase} : Primary n ts b → CompletePrimary d n ts b
  | .name h => .name h
  | .number h hvalue => .number h hvalue
  | .negative hsign h hvalue => .negative hsign h hvalue
  | .string h => .string h
  | .parentheses hopening h hclosing => by
    obtain ⟨m, rfl, hcomplete⟩ := completeExpression h
    exact .parentheses hopening hcomplete hclosing
  | .operator h => yields_operatorBox ((isOperatorBox_iff _).mpr (.inl ⟨_, h⟩))
  | .cut h => yields_operatorBox ((isOperatorBox_iff _).mpr (.inr h))
  | .call ht hopening h hclosing =>
    .call ht hopening (startsBox_arguments h) (completeArguments h) hclosing

theorem completeArguments {n : Nat} {ts : List Token} {bs : List Phrase} :
    Grammar.Arguments n ts bs → CompleteArguments d n ts bs
  | .last h => by
    obtain ⟨m, rfl, hcomplete⟩ := completeExpression h
    exact .last hcomplete
  | .more h hcomma hmore => by
    have hmore' := completeArguments hmore
    obtain ⟨m, rfl, hcomplete⟩ := completeExpression h
    exact .more hcomplete hcomma hmore'

theorem completeDefinition {n : Nat} {ts : List Token} {e : Phrase} :
    Grammar.Definition n ts e → CompleteDefinition d n ts e
  | .intro hname hparams hequals h hsemicolon => by
    obtain ⟨m, rfl, hcomplete⟩ := completeExpression h
    exact .intro hname hparams hequals hcomplete hsemicolon

theorem completeDefinitions {n : Nat} {ts : List Token} {es : List Phrase} :
    Definitions n ts es → CompleteDefinitions d n ts es
  | .nil => .nil
  | .cons h hmore => .cons (completeDefinition h) (completeDefinitions hmore)

end

end Patchbay.Parser
