import Patchbay.Proofs.Printer.Printed

/-!
# Printed trees are derived from their words

Tokens with the words of a printed tree derive the tree, provided that enough levels of expressions are
allowed. Parentheses, arguments and definitions open a level each. `nesting` says how many of them the printed text
of a tree has inside each other: it follows the parentheses that the printer puts, not the height of the tree.
-/

open List

namespace Patchbay.Phrase

open Scan Grammar

/-! ## Levels of a printed tree -/

mutual

/-- How many expressions are inside each other within the printed text of a phrase. -/
def nesting : Phrase → Nat
  | .call _ args => argumentNesting args + 1
  | .compose op left right =>
    max (left.nesting + (bracketedOperand left && !composedBy op left).toNat)
      (right.nesting + (bracketedOperand right).toNat)
  | .block body locals => max body.nesting (nestings locals)
  | .definition _ _ (some body) => body.nesting + 1
  | .program parts => nestings parts
  | _ => 0

/-- The same within the texts of phrases that stand side by side. -/
def nestings : List Phrase → Nat
  | [] => 0
  | p :: ps => max p.nesting (nestings ps)

/-- The same within the texts of arguments. -/
def argumentNesting : List Phrase → Nat
  | [] => 0
  | p :: ps => max (p.nesting + (bracketedArgument p).toNat) (argumentNesting ps)

end

/-! ## Tokens by their words -/

variable {n : Nat} {par : Bool} {t : Token} {b p : Phrase} {text : String} {ws : List Word} {ts : List Token}
  {params : List String}

theorem isMark_of_word (h : t.word = .mark text) : t.isMark text := by
  have h' : t.kind = .punctuation ∧ t.text = text := by simpa [Token.word, Word.mark] using h
  simp [Token.isMark, h']

theorem isOperator_of_word (h : t.word = .operator text) : t.isOperator text := by
  have h' : t.kind = .operator ∧ t.text = text := by simpa [Token.word, Word.operator] using h
  simp [Token.isOperator, h']

theorem isKeyword_of_word (h : t.word = .keyword text) : t.isKeyword text := by
  have h' : t.kind = .keyword ∧ t.text = text := by simpa [Token.word, Word.keyword] using h
  simp [Token.isKeyword, h']

/-- Tokens whose words are in parentheses. -/
theorem exists_of_bracket (h : ts.map Token.word = .mark "(" :: (ws ++ [.mark ")"])) :
    ∃ opening us closing, ts = opening :: (us ++ [closing]) ∧ opening.isMark "(" ∧
      us.map Token.word = ws ∧ closing.isMark ")" := by
  obtain ⟨opening, rest, rfl, hopening, hrest⟩ := map_eq_cons_iff.mp h
  obtain ⟨us, last, rfl, hus, hlast⟩ := map_eq_append_iff.mp hrest
  obtain ⟨closing, rfl, hclosing⟩ := map_eq_singleton_iff.mp hlast
  exact ⟨opening, us, closing, rfl, isMark_of_word hopening, hus, isMark_of_word hclosing⟩

/-! ## Single boxes as expressions -/

theorem composition_of_primary {tier : Nat} (h : Primary n ts b) (htier : tier ≤ 5) : Composition n par tier ts b := by
  have harithmetic : Arithmetic n 5 ts b := (Arithmetic.operand (.primary h)).mono (by omega)
  exact (Composition.operand harithmetic).mono htier

theorem expression_of_primary (h : Primary n ts b) : Expression (n + 1) par ts b :=
  .composition (composition_of_primary h (by omega))

/-! ## Trees derived from their words -/

/-- Tokens with these words derive the tree, with as many levels as its text has. -/
structure Derives (p : Phrase) (ws : List Word) : Prop where
  primary : bracketedOperand p = false → ∀ n ts, p.nesting ≤ n → ts.map Token.word = ws →
    Primary n ts p
  composition : ∀ op, composedBy op p = true → ∀ n par ts, p.nesting ≤ n →
    (op = .par → par = true) → ts.map Token.word = ws → Composition n par op.precedence ts p
  expression : ∀ n ts, p.nesting < n → ts.map Token.word = ws → Expression n true ts p

/-- A tree that is a single box without parentheses. -/
theorem Derives.of_primary (hcompose : ∀ op, composedBy op p = false)
    (h : ∀ n ts, p.nesting ≤ n → ts.map Token.word = ws → Primary n ts p) : Derives p ws where
  primary _ := h
  composition op hop := by
    rw [hcompose op] at hop
    simp at hop
  expression n ts hlevels hts := by
    obtain ⟨m, rfl⟩ : ∃ m, n = m + 1 := ⟨n - 1, by omega⟩
    exact expression_of_primary (h m ts (by omega) hts)

/-- An operand is a single box, in parentheses where it has to be. -/
theorem Derives.operand (h : Derives p ws) (hlevels : p.nesting + (bracketedOperand p).toNat ≤ n)
    (hts : ts.map Token.word = Word.bracket (bracketedOperand p) ws) : Primary n ts p := by
  cases hbracket : bracketedOperand p with
  | false =>
    rw [hbracket] at hts hlevels
    exact h.primary hbracket n ts hlevels hts
  | true =>
    rw [hbracket] at hts hlevels
    obtain ⟨opening, us, closing, rfl, hopening, hus, hclosing⟩ := exists_of_bracket hts
    exact .parentheses hopening (h.expression n us hlevels hus) hclosing

theorem one_le_precedence (op : Operator) : 1 ≤ op.precedence := by
  cases op <;> decide

variable {ws us vs : List Word} {value : Binary64} {b body : Phrase} {op : Operator}

/-- An argument is an expression without commas of its own. -/
theorem Derives.argument {p : Phrase} (h : Derives p ws) {n : Nat} {ts : List Token}
    (hlevels : p.nesting + (bracketedArgument p).toNat ≤ n)
    (hts : ts.map Token.word = Word.bracket (bracketedArgument p) ws) : Expression (n + 1) false ts p := by
  cases hbracket : bracketedArgument p with
  | true =>
    rw [hbracket] at hts hlevels
    obtain ⟨opening, us, closing, rfl, hopening, hus, hclosing⟩ := exists_of_bracket hts
    exact expression_of_primary (.parentheses hopening (h.expression n us hlevels hus) hclosing)
  | false =>
    rw [hbracket] at hts hlevels
    cases hoperand : bracketedOperand p with
    | false => exact expression_of_primary (h.primary hoperand n ts hlevels hts)
    | true =>
      -- What is left is a composition by an operator that is no comma.
      obtain ⟨op, hop, hpar⟩ : ∃ op, composedBy op p ∧ op ≠ .par := by
        cases p with
        | compose op left right =>
          refine ⟨op, by simp [composedBy], ?_⟩
          rintro rfl
          simp [bracketedArgument] at hbracket
        | block body locals => simp [bracketedArgument] at hbracket
        | _ => simp [bracketedOperand] at hoperand
      have hcomposition := h.composition op hop n false ts hlevels (fun hop' => absurd hop' hpar) hts
      exact .composition (hcomposition.mono (one_le_precedence op))

/-! ## One constructor at a time -/

theorem Derives.name {w : Word} (h : IsBox w) : Derives (.name w.text) [w] := by
  refine .of_primary (fun _ => rfl) fun n ts _ hts => ?_
  obtain ⟨t, rfl, rfl⟩ := map_eq_singleton_iff.mp hts
  rcases h with (hname | ⟨hkind, tier, htext⟩) | hcut
  · exact .name hname
  · have harithmetic : IsArithmetic tier t := ⟨hkind, htext⟩
    exact .operator harithmetic
  · exact .cut (isOperator_of_word hcut)

theorem Derives.number (h : Number.ofNumeral? text.toList = some value) :
    Derives (.number value text) [⟨.number, text⟩] := by
  refine .of_primary (fun _ => rfl) fun n ts _ hts => ?_
  obtain ⟨t, rfl, hword⟩ := map_eq_singleton_iff.mp hts
  obtain ⟨hkind, rfl⟩ : t.kind = .number ∧ t.text = text := by simpa [Token.word] using hword
  exact .number hkind h

theorem Derives.negative {text : String}
    (h : Number.ofNumeral? text.toList = some value) :
    Derives (.number (-value) ("-" ++ text)) [.operator "-", ⟨.number, text⟩] := by
  refine .of_primary (fun _ => rfl) fun n ts _ hts => ?_
  obtain ⟨sign, rest, rfl, hsign, hrest⟩ := map_eq_cons_iff.mp hts
  obtain ⟨t, rfl, hword⟩ := map_eq_singleton_iff.mp hrest
  obtain ⟨hkind, rfl⟩ : t.kind = .number ∧ t.text = text := by simpa [Token.word] using hword
  exact .negative (isOperator_of_word hsign) hkind h

theorem Derives.string (value : String) : Derives (.string value) [⟨.string, quote value⟩] := by
  refine .of_primary (fun _ => rfl) fun n ts _ hts => ?_
  obtain ⟨t, rfl, hword⟩ := map_eq_singleton_iff.mp hts
  obtain ⟨hkind, htext⟩ : t.kind = .string ∧ t.text = quote value := by simpa [Token.word] using hword
  have hder : Primary n [t] (.string (Parser.unquote t.text)) := .string hkind
  rwa [htext, Parser.unquote_quote] at hder

/-- Tokens with these words derive the arguments. -/
def DerivesArguments (args : List Phrase) (ws : List Word) : Prop :=
  ∀ n ts, argumentNesting args < n → ts.map Token.word = ws → Grammar.Arguments n ts args

theorem DerivesArguments.last (h : Derives b ws) :
    DerivesArguments [b] (Word.bracket (bracketedArgument b) ws) := by
  intro n ts hlevels hts
  simp only [argumentNesting] at hlevels
  obtain ⟨m, rfl⟩ : ∃ m, n = m + 1 := ⟨n - 1, by omega⟩
  exact .last (h.argument (by omega) hts)

theorem DerivesArguments.more {bs : List Phrase} (h : Derives b us)
    (hmore : DerivesArguments bs vs) :
    DerivesArguments (b :: bs) (Word.bracket (bracketedArgument b) us ++ .operator "," :: vs) := by
  intro n ts hlevels hts
  simp only [argumentNesting] at hlevels
  obtain ⟨m, rfl⟩ : ∃ m, n = m + 1 := ⟨n - 1, by omega⟩
  obtain ⟨ts₁, ts₂, rfl, hts₁, hts₂⟩ := map_eq_append_iff.mp hts
  obtain ⟨comma, ts₃, rfl, hcomma, hts₃⟩ := map_eq_cons_iff.mp hts₂
  exact .more (h.argument (by omega) hts₁) (isOperator_of_word hcomma) (hmore _ _ (by omega) hts₃)

theorem Derives.call {w : Word} {args : List Phrase} (hw : IsHead w)
    (h : DerivesArguments args ws) :
    Derives (.call w.text args) (w :: .mark "(" :: (ws ++ [.mark ")"])) := by
  refine .of_primary (fun _ => rfl) fun n ts hlevels hts => ?_
  obtain ⟨t, rest, rfl, rfl, hrest⟩ := map_eq_cons_iff.mp hts
  obtain ⟨opening, us, closing, rfl, hopening, hus, hclosing⟩ := exists_of_bracket hrest
  have hcallable : IsCallable t := by
    rcases hw with hname | ⟨hkind, tier, htext⟩
    · exact Or.inl hname
    · exact Or.inr ⟨tier, hkind, htext⟩
  rw [nesting] at hlevels
  exact .call hcallable hopening (h n us hlevels hus) hclosing

/-- The left operand of a composition: a run of the same operator stands without parentheses. -/
theorem Derives.left (h : Derives p ws) (hpar : op = .par → par)
    (hlevels : p.nesting + (bracketedOperand p && !composedBy op p).toNat ≤ n)
    (hts : ts.map Token.word = Word.bracket (bracketedOperand p && !composedBy op p) ws) :
    Composition n par op.precedence ts p := by
  cases hrun : composedBy op p with
  | true =>
    rw [hrun, Bool.not_true, Bool.and_false] at hts hlevels
    exact h.composition op hrun n par ts hlevels hpar hts
  | false =>
    rw [hrun, Bool.not_false, Bool.and_true] at hts hlevels
    have hprecedence : op.precedence ≤ 5 := by cases op <;> decide
    exact composition_of_primary (h.operand hlevels hts) hprecedence

theorem Derives.compose {left right : Phrase} (hl : Derives left us)
    (hr : Derives right vs) :
    Derives (.compose op left right)
      (Word.bracket (bracketedOperand left && !composedBy op left) us
        ++ .operator op.symbol :: Word.bracket (bracketedOperand right) vs) := by
  -- The left operand may be a chain of the same operator, the right one is closed: chains lean left.
  have hcomposition (n : Nat) (par : Bool) (ts : List Token)
      (hlevels : (Phrase.compose op left right).nesting ≤ n) (hpar : op = .par → par)
      (hts : ts.map Token.word = Word.bracket (bracketedOperand left && !composedBy op left) us
        ++ .operator op.symbol :: Word.bracket (bracketedOperand right) vs) :
      Composition n par op.precedence ts (.compose op left right) := by
    rw [nesting] at hlevels
    obtain ⟨ts₁, ts₂, rfl, hts₁, hts₂⟩ := map_eq_append_iff.mp hts
    obtain ⟨t, ts₃, rfl, ht, hts₃⟩ := map_eq_cons_iff.mp hts₂
    have hword : t.kind = .operator ∧ t.text = op.symbol := by
      simpa [Token.word, Word.operator] using ht
    have hop : IsComposition par op.precedence t op :=
      ⟨hword.1, hword.2, (Parser.mem_compositionTier_iff _ _).mpr rfl, hpar⟩
    have hprecedence : op.precedence + 1 ≤ 5 := by cases op <;> decide
    exact .join (hl.left hpar (by omega) hts₁) hop
      (composition_of_primary (hr.operand (by omega) hts₃) hprecedence)
  constructor
  · intro hbracket
    simp [bracketedOperand] at hbracket
  · intro op' hop n par ts hlevels hpar hts
    obtain rfl : op = op' := by simpa [composedBy] using hop
    exact hcomposition n par ts hlevels hpar hts
  · intro n ts hlevels hts
    obtain ⟨m, rfl⟩ : ∃ m, n = m + 1 := ⟨n - 1, by omega⟩
    exact .composition ((hcomposition m true ts (by omega) (fun _ => rfl) hts).mono (one_le_precedence op))

/-- Tokens with these words derive the definition. -/
def DerivesDefinition (d : Phrase) (ws : List Word) : Prop :=
  ∀ n ts, d.nesting ≤ n → ts.map Token.word = ws → Grammar.Definition n ts d

/-- Tokens with these words derive the definitions. -/
def DerivesDefinitions (ds : List Phrase) (ws : List Word) : Prop :=
  ∀ n ts, nestings ds ≤ n → ts.map Token.word = ws → Definitions n ts ds

theorem DerivesDefinitions.nil : DerivesDefinitions [] [] := by
  intro n ts _ hts
  obtain rfl := map_eq_nil_iff.mp hts
  exact .nil

theorem DerivesDefinitions.cons {d : Phrase} {ds : List Phrase}
    (h : DerivesDefinition d us) (hmore : DerivesDefinitions ds vs) :
    DerivesDefinitions (d :: ds) (us ++ vs) := by
  intro n ts hlevels hts
  rw [nestings] at hlevels
  obtain ⟨ts₁, ts₂, rfl, hts₁, hts₂⟩ := map_eq_append_iff.mp hts
  exact .cons (h n ts₁ (by omega) hts₁) (hmore n ts₂ (by omega) hts₂)

theorem Derives.block {locals : List Phrase} (h : Derives body us)
    (hlocals : DerivesDefinitions locals vs) :
    Derives (.block body locals)
      (us ++ .keyword "with" :: .mark "\x7b" :: (vs ++ [.mark "\x7d"])) := by
  constructor
  · intro hbracket
    simp [bracketedOperand] at hbracket
  · intro op hop
    simp [composedBy] at hop
  · intro n ts hlevels hts
    rw [nesting] at hlevels
    obtain ⟨m, rfl⟩ : ∃ m, n = m + 1 := ⟨n - 1, by omega⟩
    obtain ⟨ts₁, ts₂, rfl, hts₁, hts₂⟩ := map_eq_append_iff.mp hts
    obtain ⟨keyword, ts₃, rfl, hkeyword, hts₃⟩ := map_eq_cons_iff.mp hts₂
    obtain ⟨opening, ts₄, rfl, hopening, hts₄⟩ := map_eq_cons_iff.mp hts₃
    obtain ⟨ts₅, ts₆, rfl, hts₅, hts₆⟩ := map_eq_append_iff.mp hts₄
    obtain ⟨closing, rfl, hclosing⟩ := map_eq_singleton_iff.mp hts₆
    exact .block (h.expression _ _ (by omega) hts₁) (isKeyword_of_word hkeyword)
      (isMark_of_word hopening) (hlocals m ts₅ (by omega) hts₅) (isMark_of_word hclosing)

theorem derives_parameters (hne : params ≠ []) (h : ∀ param ∈ params, PrintsParameter param)
    (hts : ts.map Token.word = parameterWords params) : Parameters ts params := by
  induction params generalizing ts with
  | nil => exact absurd rfl hne
  | cons param params ih =>
    have hparam {t : Token} (ht : t.word = ⟨.identifier, param⟩) :
        t.text = param ∧ Grammar.IsParameter t := by
      have hword : t.kind = .identifier ∧ t.text = param := by simpa [Token.word] using ht
      refine ⟨hword.2, hword.1, ?_⟩
      rw [hword.2]
      exact (h param (by simp)).undotted
    cases params with
    | nil =>
      obtain ⟨t, rfl, ht⟩ := map_eq_singleton_iff.mp hts
      obtain ⟨rfl, hparameter⟩ := hparam ht
      exact .last hparameter
    | cons other params =>
      obtain ⟨t, ts₁, rfl, ht, hts₁⟩ := map_eq_cons_iff.mp hts
      obtain ⟨comma, ts₂, rfl, hcomma, hts₂⟩ := map_eq_cons_iff.mp hts₁
      obtain ⟨rfl, hparameter⟩ := hparam ht
      have hmore := ih (by simp) (fun p hp => h p (by simp [hp])) hts₂
      exact .more hparameter (isOperator_of_word hcomma) hmore

theorem derives_parameterList (h : ∀ param ∈ params, PrintsParameter param)
    (hts : ts.map Token.word = parameterListWords params) : ParameterList ts params := by
  cases params with
  | nil =>
    obtain rfl := map_eq_nil_iff.mp hts
    exact .none
  | cons param params =>
    obtain ⟨opening, us, closing, rfl, hopening, hus, hclosing⟩ := exists_of_bracket hts
    exact .some hopening (derives_parameters (by simp) h hus) hclosing

theorem DerivesDefinition.intro {name : String} {params : List String}
    (hparams : ∀ param ∈ params, PrintsParameter param) (h : Derives body ws) :
    DerivesDefinition (.definition name params (some body))
      (⟨.identifier, name⟩ :: (parameterListWords params ++ .operator "=" :: (ws ++ [.mark ";"]))) := by
  intro n ts hlevels hts
  rw [nesting] at hlevels
  obtain ⟨t, ts₁, rfl, ht, hts₁⟩ := map_eq_cons_iff.mp hts
  obtain ⟨ts₂, ts₃, rfl, hts₂, hts₃⟩ := map_eq_append_iff.mp hts₁
  obtain ⟨equals, ts₄, rfl, hequals, hts₄⟩ := map_eq_cons_iff.mp hts₃
  obtain ⟨ts₅, ts₆, rfl, hts₅, hts₆⟩ := map_eq_append_iff.mp hts₄
  obtain ⟨semicolon, rfl, hsemicolon⟩ := map_eq_singleton_iff.mp hts₆
  obtain ⟨hkind, rfl⟩ : t.kind = .identifier ∧ t.text = name := by simpa [Token.word] using ht
  exact .intro hkind (derives_parameterList hparams hts₂) (isOperator_of_word hequals)
    (h.expression n ts₅ hlevels hts₅) (isMark_of_word hsemicolon)

/-! ## All printed trees -/

mutual

theorem Prints.derives {p : Phrase} {ws : List Word} : Prints p ws → Derives p ws
  | .name _ h => .name h
  | .number _ h => .number h
  | .negative _ h => .negative h
  | .string => .string _
  | .call _ hw h => .call hw h.derives
  | .compose hl hr => .compose hl.derives hr.derives
  | .block h hlocals => .block h.derives hlocals.derives

theorem PrintsArguments.derives {args : List Phrase} {ws : List Word} :
    PrintsArguments args ws → DerivesArguments args ws
  | .last h => .last h.derives
  | .more h hmore => .more h.derives hmore.derives

theorem PrintsDefinition.derives {d : Phrase} {ws : List Word} :
    PrintsDefinition d ws → DerivesDefinition d ws
  | .intro _ hparams h => .intro hparams h.derives

theorem PrintsDefinitions.derives {ds : List Phrase} {ws : List Word} :
    PrintsDefinitions ds ws → DerivesDefinitions ds ws
  | .nil => .nil
  | .cons h hmore => .cons h.derives hmore.derives

end

end Patchbay.Phrase
