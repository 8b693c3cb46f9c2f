import Patchbay.Program.Parser
import Patchbay.Program.Printer

/-!
# The grammar of programs

The grammar says which lists of tokens are programs, and which tree each of them stands for. Operators are
given by tiers: the operands of a tier are the phrases of the next one, and every operator associates to
the left. Composition operators have the tiers 1 to 4, arithmetic operators 5 to 8.

The trees are phrases: they carry no marks. An arithmetic operator stands for its box fed by both operands,
a prime for a delay by one sample.

Every nonterminal for boxes carries the number of expressions that may still be nested in each other:
`Expression n` derives expressions with at most `n` levels, the outermost one included.
-/

namespace Patchbay.Grammar

/-! ## Terminals -/

/-- The composition operators of a tier. -/
def compositionTier : Nat → List Operator
  | 1 => [.split, .merge]
  | 2 => [.seq]
  | 3 => [.par]
  | 4 => [.recur]
  | _ => []

/-- The arithmetic operators of a tier. -/
def arithmeticTier : Nat → List String
  | 5 => ["<", ">", "<=", ">=", "==", "!="]
  | 6 => ["+", "-", "|"]
  | 7 => ["*", "/", "%", "&", "<<", ">>"]
  | 8 => ["@", "^"]
  | _ => []

/-- The token writes the composition operator `op` of a tier. Where arguments are read, `par` is false and
no comma composes. -/
structure IsComposition (par : Bool) (tier : Nat) (t : Token) (op : Operator) : Prop where
  kind : t.kind = .operator
  text : t.text = op.symbol
  tier : op ∈ compositionTier tier
  par : op = .par → par = true

/-- The token writes an arithmetic operator of a tier. -/
structure IsArithmetic (tier : Nat) (t : Token) : Prop where
  kind : t.kind = .operator
  text : t.text ∈ arithmeticTier tier

/-- The token may head a call: a name, or an operator that is a box; the cut `!` takes no arguments. -/
def IsCallable (t : Token) : Prop := t.kind = .identifier ∨ ∃ tier, IsArithmetic tier t

/-- The token is a parameter: a name without a point. -/
structure IsParameter (t : Token) : Prop where
  kind : t.kind = .identifier
  text : '.' ∉ t.text.toList

/-! ## Definitions and boxes -/

/-- Parameters with commas between them. -/
inductive Parameters : List Token → List String → Prop
  | last {t : Token} : IsParameter t → Parameters [t] [t.text]
  | more {t comma : Token} {ts : List Token} {names : List String} :
      IsParameter t → comma.isOperator "," → Parameters ts names →
      Parameters (t :: comma :: ts) (t.text :: names)

/-- The parameters after the name of a definition, in parentheses if there are any. -/
inductive ParameterList : List Token → List String → Prop
  | none : ParameterList [] []
  | some {opening closing : Token} {ts : List Token} {names : List String} :
      opening.isMark "(" → Parameters ts names → closing.isMark ")" →
      ParameterList (opening :: (ts ++ [closing])) names

/-- The tree of an arithmetic operator between two operands. -/
def arithmetic (operator : String) (left right : Phrase) : Phrase :=
  .compose .seq (.compose .par left right) (.name operator)

/-- The tree of a prime after a box. -/
def delayed (b : Phrase) : Phrase := .compose .seq b (.name "mem")

mutual

/-- A composition, and blocks of definitions after it. -/
inductive Expression : (levels : Nat) → (par : Bool) → List Token → Phrase → Prop
  | composition {n : Nat} {par : Bool} {ts : List Token} {b : Phrase} :
      Composition n par 1 ts b → Expression (n + 1) par ts b
  | block {n : Nat} {par : Bool} {ts us : List Token} {b : Phrase} {ds : List Phrase}
      {keyword opening closing : Token} :
      Expression (n + 1) par ts b → keyword.isKeyword "with" → opening.isMark "\x7b" →
      Definitions n us ds → closing.isMark "\x7d" →
      Expression (n + 1) par (ts ++ keyword :: opening :: (us ++ [closing])) (.block b ds)

/-- Operands joined by composition operators of a tier or tighter ones. -/
inductive Composition : (levels : Nat) → (par : Bool) → (tier : Nat) → List Token → Phrase → Prop
  | operand {n : Nat} {par : Bool} {ts : List Token} {b : Phrase} :
      Arithmetic n 5 ts b → Composition n par 5 ts b
  | tighter {n : Nat} {par : Bool} {tier : Nat} {ts : List Token} {b : Phrase} :
      Composition n par (tier + 1) ts b → Composition n par tier ts b
  | join {n : Nat} {par : Bool} {tier : Nat} {ts us : List Token} {t : Token} {op : Operator}
      {left right : Phrase} :
      Composition n par tier ts left → IsComposition par tier t op →
      Composition n par (tier + 1) us right →
      Composition n par tier (ts ++ t :: us) (.compose op left right)

/-- Operands joined by arithmetic operators of a tier or tighter ones. -/
inductive Arithmetic : (levels : Nat) → (tier : Nat) → List Token → Phrase → Prop
  | operand {n : Nat} {ts : List Token} {b : Phrase} : Postfix n ts b → Arithmetic n 9 ts b
  | tighter {n tier : Nat} {ts : List Token} {b : Phrase} :
      Arithmetic n (tier + 1) ts b → Arithmetic n tier ts b
  | join {n tier : Nat} {ts us : List Token} {t : Token} {left right : Phrase} :
      Arithmetic n tier ts left → IsArithmetic tier t → Arithmetic n (tier + 1) us right →
      Arithmetic n tier (ts ++ t :: us) (arithmetic t.text left right)

/-- A single box with primes after it. -/
inductive Postfix : (levels : Nat) → List Token → Phrase → Prop
  | primary {n : Nat} {ts : List Token} {b : Phrase} : Primary n ts b → Postfix n ts b
  | prime {n : Nat} {ts : List Token} {t : Token} {b : Phrase} :
      Postfix n ts b → t.isOperator "'" → Postfix n (ts ++ [t]) (delayed b)

/-- A single box. -/
inductive Primary : (levels : Nat) → List Token → Phrase → Prop
  | name {n : Nat} {t : Token} : t.kind = .identifier → Primary n [t] (.name t.text)
  | number {n : Nat} {t : Token} {value : Binary64} :
      t.kind = .number → Number.ofNumeral? t.text.toList = some value →
      Primary n [t] (.number value t.text)
  | negative {n : Nat} {sign t : Token} {value : Binary64} :
      sign.isOperator "-" → t.kind = .number → Number.ofNumeral? t.text.toList = some value →
      Primary n [sign, t] (.number (-value) ("-" ++ t.text))
  | string {n : Nat} {t : Token} : t.kind = .string → Primary n [t] (.string (Parser.unquote t.text))
  | parentheses {n : Nat} {opening closing : Token} {ts : List Token} {b : Phrase} :
      opening.isMark "(" → Expression n true ts b → closing.isMark ")" →
      Primary n (opening :: (ts ++ [closing])) b
  | operator {n tier : Nat} {t : Token} : IsArithmetic tier t → Primary n [t] (.name t.text)
  | cut {n : Nat} {t : Token} : t.isOperator "!" → Primary n [t] (.name t.text)
  | call {n : Nat} {t opening closing : Token} {ts : List Token} {args : List Phrase} :
      IsCallable t → opening.isMark "(" → Arguments n ts args → closing.isMark ")" →
      Primary n (t :: opening :: (ts ++ [closing])) (.call t.text args)

/-- Arguments with commas between them. -/
inductive Arguments : (levels : Nat) → List Token → List Phrase → Prop
  | last {n : Nat} {ts : List Token} {b : Phrase} : Expression n false ts b → Arguments n ts [b]
  | more {n : Nat} {ts us : List Token} {comma : Token} {b : Phrase} {bs : List Phrase} :
      Expression n false ts b → comma.isOperator "," → Arguments n us bs →
      Arguments n (ts ++ comma :: us) (b :: bs)

/-- A definition of a name. -/
inductive Definition : (levels : Nat) → List Token → Phrase → Prop
  | intro {n : Nat} {name equals semicolon : Token} {us ts : List Token} {params : List String}
      {b : Phrase} :
      name.kind = .identifier → ParameterList us params → equals.isOperator "=" →
      Expression n true ts b → semicolon.isMark ";" →
      Definition n (name :: (us ++ equals :: (ts ++ [semicolon]))) (.definition name.text params (some b))

/-- Definitions one after another. -/
inductive Definitions : (levels : Nat) → List Token → List Phrase → Prop
  | nil {n : Nat} : Definitions n [] []
  | cons {n : Nat} {ts us : List Token} {d : Phrase} {ds : List Phrase} :
      Definition n ts d → Definitions n us ds → Definitions n (ts ++ us) (d :: ds)

end

/-! ## Programs -/

/-- What a program consists of, without marks. -/
structure Tree where
  imports : List String
  declarations : List (String × String)
  definitions : List Phrase

/-- Statements one after another, with definitions of at most `n` levels. -/
inductive Statements (n : Nat) : List Token → Tree → Prop
  | nil : Statements n [] ⟨[], [], []⟩
  | importing {keyword opening path closing semicolon : Token} {ts : List Token} {p : Tree} :
      keyword.isKeyword "import" → opening.isMark "(" → path.kind = .string → closing.isMark ")" →
      semicolon.isMark ";" → Statements n ts p →
      Statements n (keyword :: opening :: path :: closing :: semicolon :: ts)
        { p with imports := Parser.unquote path.text :: p.imports }
  | declaring {keyword value semicolon : Token} {names ts : List Token} {p : Tree} :
      keyword.isKeyword "declare" → names ≠ [] → (∀ name ∈ names, name.kind = .identifier) →
      value.kind = .string → semicolon.isMark ";" → Statements n ts p →
      Statements n (keyword :: (names ++ value :: semicolon :: ts))
        { p with declarations :=
            (" ".intercalate (names.map (·.text)), Parser.unquote value.text) :: p.declarations }
  | defining {ts us : List Token} {d : Phrase} {p : Tree} :
      Definition n ts d → Statements n us p →
      Statements n (ts ++ us) { p with definitions := d :: p.definitions }

/-! ## Tiers -/

variable {n tier tier' : Nat} {b : Phrase} {ts : List Token}

theorem Composition.mono {par : Bool} (h : tier' ≤ tier) (hc : Composition n par tier ts b) :
    Composition n par tier' ts b := by
  induction h with
  | refl => exact hc
  | step _ ih => exact ih hc.tighter

theorem Arithmetic.mono (h : tier' ≤ tier) (ha : Arithmetic n tier ts b) : Arithmetic n tier' ts b := by
  induction h with
  | refl => exact ha
  | step _ ih => exact ih ha.tighter

/-- No arithmetic operator has a tier below five. -/
theorem Arithmetic.of_zero (h : Arithmetic n 0 ts b) : Arithmetic n 5 ts b := by
  have hstep {tier : Nat} (htier : tier < 5) (h : Arithmetic n tier ts b) :
      Arithmetic n (tier + 1) ts b := by
    cases h with
    | operand _ => omega
    | tighter h => exact h
    | join _ ht _ =>
      have hnil : arithmeticTier tier = [] := by
        match tier, htier with
        | 0, _ | 1, _ | 2, _ | 3, _ | 4, _ => rfl
      have := ht.text
      simp [hnil] at this
  exact hstep (by omega) (hstep (by omega) (hstep (by omega) (hstep (by omega) (hstep (by omega) h))))

theorem lt_of_mem_arithmeticTier {text : String} (h : text ∈ arithmeticTier tier) : tier < 9 := by
  unfold arithmeticTier at h
  split at h <;> simp_all

end Patchbay.Grammar

namespace Patchbay

theorem Box.phrases_eq_map (bs : List Box) : Box.phrases bs = bs.map Box.phrase := by
  induction bs with
  | nil => rfl
  | cons b bs ih => simp [Box.phrases, ih]

theorem Definition.phrases_eq_map (ds : List Definition) :
    Definition.phrases ds = ds.map Definition.phrase := by
  induction ds with
  | nil => rfl
  | cons d ds ih => simp [Definition.phrases, ih]

/-- The tree of a program: the program without marks and ends. -/
def Program.tree (p : Program) : Grammar.Tree :=
  ⟨p.imports.map (·.path), p.declarations.map fun d => (d.key, d.value), Definition.phrases p.definitions⟩

end Patchbay

/-! ## Terminals as the reader sees them -/

namespace Patchbay.Parser

open Grammar

theorem arithmeticPrecedence?_eq_some_iff (text : String) (tier : Nat) :
    arithmeticPrecedence? text = some tier ↔ text ∈ arithmeticTier tier := by
  constructor
  · intro h
    unfold arithmeticPrecedence? at h
    split at h
    · rename_i hmem
      obtain rfl : 5 = tier := by simpa using h
      simpa [arithmeticTier] using hmem
    · split at h
      · rename_i hmem
        obtain rfl : 6 = tier := by simpa using h
        simpa [arithmeticTier] using hmem
      · split at h
        · rename_i hmem
          obtain rfl : 7 = tier := by simpa using h
          simpa [arithmeticTier] using hmem
        · split at h
          · rename_i hmem
            obtain rfl : 8 = tier := by simpa using h
            simpa [arithmeticTier] using hmem
          · simp at h
  · intro h
    unfold arithmeticTier at h
    split at h
    · have hall : ∀ x ∈ ["<", ">", "<=", ">=", "==", "!="], arithmeticPrecedence? x = some 5 := by decide
      exact hall text h
    · have hall : ∀ x ∈ ["+", "-", "|"], arithmeticPrecedence? x = some 6 := by decide
      exact hall text h
    · have hall : ∀ x ∈ ["*", "/", "%", "&", "<<", ">>"], arithmeticPrecedence? x = some 7 := by decide
      exact hall text h
    · have hall : ∀ x ∈ ["@", "^"], arithmeticPrecedence? x = some 8 := by decide
      exact hall text h
    · simp at h

theorem arithmeticOf?_eq_some_iff (t : Token) (tier : Nat) :
    arithmeticOf? t = some tier ↔ IsArithmetic tier t := by
  unfold arithmeticOf?
  constructor
  · intro h
    split at h
    · rename_i hkind
      exact ⟨hkind, (arithmeticPrecedence?_eq_some_iff _ _).mp h⟩
    · simp at h
  · intro h
    rw [if_pos h.kind]
    exact (arithmeticPrecedence?_eq_some_iff _ _).mpr h.text

theorem mem_compositionTier_iff (op : Operator) (tier : Nat) :
    op ∈ compositionTier tier ↔ op.precedence = tier := by
  constructor
  · intro h
    unfold compositionTier at h
    split at h
    · rcases List.mem_cons.mp h with rfl | h
      · rfl
      · obtain rfl := List.mem_singleton.mp h
        rfl
    · obtain rfl := List.mem_singleton.mp h
      rfl
    · obtain rfl := List.mem_singleton.mp h
      rfl
    · obtain rfl := List.mem_singleton.mp h
      rfl
    · simp at h
  · rintro rfl
    cases op <;> decide

theorem ofSymbol?_eq_some_iff (text : String) (op : Operator) :
    Operator.ofSymbol? text = some op ↔ text = op.symbol := by
  constructor
  · intro h
    unfold Operator.ofSymbol? at h
    split at h <;> simp at h <;> subst h <;> rfl
  · rintro rfl
    exact Operator.ofSymbol?_symbol op

theorem compositionOf?_eq_some_iff (par : Bool) (t : Token) (op : Operator) :
    compositionOf? par t = some op ↔ IsComposition par op.precedence t op := by
  unfold compositionOf?
  constructor
  · intro h
    split at h
    · rename_i hkind
      have hsymbol : Operator.ofSymbol? t.text = some op ∧ (op = .par → par) := by
        split at h
        · rename_i hpar
          split at h
          · rename_i hallow
            obtain rfl : Operator.par = op := by simpa using h
            exact ⟨hpar, fun _ => hallow⟩
          · simp at h
        · rename_i hpar
          refine ⟨h, fun hop => ?_⟩
          subst hop
          exact absurd h hpar
      exact ⟨hkind, (ofSymbol?_eq_some_iff _ _).mp hsymbol.1, (mem_compositionTier_iff _ _).mpr rfl,
        hsymbol.2⟩
    · simp at h
  · intro h
    rw [if_pos h.kind, (ofSymbol?_eq_some_iff _ _).mpr h.text]
    cases op with
    | par => simp [h.par rfl]
    | _ => rfl

theorem isParameter_iff (t : Token) : isParameter t ↔ IsParameter t := by
  constructor
  · intro h
    have h' : t.kind = .identifier ∧ '.' ∉ t.text.toList := by simpa [isParameter] using h
    exact ⟨h'.1, h'.2⟩
  · intro h
    simp [isParameter, h.kind, h.text]

theorem isOperatorBox_iff (t : Token) :
    isOperatorBox t ↔ (∃ tier, IsArithmetic tier t) ∨ t.isOperator "!" := by
  have hsome : (arithmeticPrecedence? t.text).isSome ↔ ∃ tier, t.text ∈ arithmeticTier tier := by
    rw [Option.isSome_iff_exists]
    exact exists_congr fun tier => arithmeticPrecedence?_eq_some_iff t.text tier
  have hbox : isOperatorBox t ↔
      t.kind = .operator ∧ ((∃ tier, t.text ∈ arithmeticTier tier) ∨ t.text = "!") := by
    simp [isOperatorBox, hsome]
  rw [hbox]
  constructor
  · rintro ⟨hkind, ⟨tier, htext⟩ | htext⟩
    · exact Or.inl ⟨tier, hkind, htext⟩
    · exact Or.inr (by simp [Token.isOperator, hkind, htext])
  · rintro (⟨tier, h⟩ | h)
    · exact ⟨h.kind, Or.inl ⟨tier, h.text⟩⟩
    · have h' : t.kind = .operator ∧ t.text = "!" := by simpa [Token.isOperator] using h
      exact ⟨h'.1, Or.inr h'.2⟩

end Patchbay.Parser
