import Patchbay.Proofs.Parser.Acceptance
import Patchbay.Proofs.Printer.Spelling

/-!
# The words of printed trees

`Prints p words` says that the tree `p` can come from a text without mistakes, and that its printed text
consists of `words`. Every tree that steady tokens derive is of this kind; its printed text spells its
words; and tokens with these words derive the tree again.

Parentheses are where the printer puts them: around a composition or a block that is an operand, except
at the left end of a run of one operator, and around a comma or a block that is an argument.
-/

namespace Patchbay.Phrase

open Scan Grammar

/-- A word that heads a call: a name, or an arithmetic operator. -/
def IsHead (w : Word) : Prop :=
  w.kind = .identifier ∨ w.kind = .operator ∧ ∃ tier, w.text ∈ arithmeticTier tier

/-- A word that is a box by itself. -/
def IsBox (w : Word) : Prop := IsHead w ∨ w = .operator "!"

/-- A word that is a parameter. -/
structure PrintsParameter (name : String) : Prop where
  steady : Steady .identifier name.toList
  undotted : '.' ∉ name.toList

/-- The words of parameters, with commas between them. -/
def parameterWords : List String → List Word
  | [] => []
  | [param] => [⟨.identifier, param⟩]
  | param :: params => ⟨.identifier, param⟩ :: .operator "," :: parameterWords params

/-- The words of the parameters of a definition, in parentheses if there are any. -/
def parameterListWords (params : List String) : List Word :=
  if params.isEmpty then [] else .mark "(" :: (parameterWords params ++ [.mark ")"])

mutual

/-- The tree of a box, and the words it is printed as. -/
inductive Prints : Phrase → List Word → Prop
  | name {w : Word} : Steady w.kind w.text.toList → IsBox w → Prints (.name w.text) [w]
  | number {text : String} {value : Binary64} :
      Steady .number text.toList → Number.ofNumeral? text.toList = some value →
      Prints (.number value text) [⟨.number, text⟩]
  | negative {text : String} {value : Binary64} :
      Steady .number text.toList → Number.ofNumeral? text.toList = some value →
      Prints (.number (-value) ("-" ++ text)) [.operator "-", ⟨.number, text⟩]
  | string {value : String} : Prints (.string value) [⟨.string, quote value⟩]
  | call {w : Word} {args : List Phrase} {ws : List Word} :
      Steady w.kind w.text.toList → IsHead w → PrintsArguments args ws →
      Prints (.call w.text args) (w :: .mark "(" :: (ws ++ [.mark ")"]))
  | compose {op : Operator} {left right : Phrase} {us vs : List Word} :
      Prints left us → Prints right vs →
      Prints (.compose op left right)
        (Word.bracket (bracketedOperand left && !composedBy op left) us
          ++ .operator op.symbol :: Word.bracket (bracketedOperand right) vs)
  | block {body : Phrase} {locals : List Phrase} {us vs : List Word} :
      Prints body us → PrintsDefinitions locals vs →
      Prints (.block body locals)
        (us ++ .keyword "with" :: .mark "\x7b" :: (vs ++ [.mark "\x7d"]))

/-- Arguments, and their words with commas between them. -/
inductive PrintsArguments : List Phrase → List Word → Prop
  | last {b : Phrase} {ws : List Word} :
      Prints b ws → PrintsArguments [b] (Word.bracket (bracketedArgument b) ws)
  | more {b : Phrase} {bs : List Phrase} {us vs : List Word} :
      Prints b us → PrintsArguments bs vs →
      PrintsArguments (b :: bs) (Word.bracket (bracketedArgument b) us ++ .operator "," :: vs)

/-- A definition, and its words. -/
inductive PrintsDefinition : Phrase → List Word → Prop
  | intro {name : String} {params : List String} {body : Phrase} {ws : List Word} :
      Steady .identifier name.toList → (∀ param ∈ params, PrintsParameter param) → Prints body ws →
      PrintsDefinition (.definition name params (some body))
        (⟨.identifier, name⟩ :: (parameterListWords params ++ .operator "=" :: (ws ++ [.mark ";"])))

/-- Definitions, and the words of all of them. -/
inductive PrintsDefinitions : List Phrase → List Word → Prop
  | nil : PrintsDefinitions [] []
  | cons {d : Phrase} {ds : List Phrase} {us vs : List Word} :
      PrintsDefinition d us → PrintsDefinitions ds vs → PrintsDefinitions (d :: ds) (us ++ vs)

end

/-! ## Trees that tokens derive -/

variable {tier : Nat} {t : Token} {text : String} {us vs ws : List Word} {ts : List Token} {names params : List String}

theorem isOperator_word (h : t.isOperator text) : t.word = .operator text := by
  rw [Token.word, Parser.kind_of_isOperator h, Parser.text_of_isOperator h]
  rfl

theorem isHead_of_isCallable (h : IsCallable t) : IsHead t.word := by
  rcases h with hname | ⟨tier, harithmetic⟩
  · exact Or.inl hname
  · exact Or.inr ⟨harithmetic.kind, tier, harithmetic.text⟩

theorem isHead_of_isArithmetic (h : IsArithmetic tier t) : IsHead t.word :=
  isHead_of_isCallable (Or.inr ⟨tier, h⟩)

/-- A token that is a box by itself. -/
theorem prints_token (hsteady : Steady t.kind t.text.toList) (h : IsBox t.word) : Prints (.name t.text) [t.word] :=
  .name hsteady h

theorem prints_arithmetic {left right : Phrase} (hsteady : Steady t.kind t.text.toList) (ht : IsArithmetic tier t)
    (hleft : Prints left us) (hright : Prints right vs) : ∃ ws, Prints (Grammar.arithmetic t.text left right) ws :=
  ⟨_, .compose (.compose hleft hright) (prints_token hsteady (Or.inl (isHead_of_isArithmetic ht)))⟩

theorem prints_delayed {b : Phrase} (h : Prints b ws) : ∃ vs, Prints (delayed b) vs := by
  have hsteady : Steady .identifier ['m', 'e', 'm'] := steady_of_alone (by decide)
  have hmem : Prints (.name (Word.mk .identifier "mem").text) [⟨.identifier, "mem"⟩] :=
    .name hsteady (Or.inl (Or.inl rfl))
  exact ⟨_, .compose h hmem⟩

theorem printsParameter_of_derives (h : Parameters ts names) (hsteady : ∀ t ∈ ts, Steady t.kind t.text.toList) :
    ∀ param ∈ names, PrintsParameter param := by
  induction h with
  | @last t ht =>
    have hparam : PrintsParameter t.text := ⟨ht.kind ▸ hsteady t (by simp), ht.text⟩
    simpa using hparam
  | @more t comma ts names ht _ _ ih =>
    have hparam : PrintsParameter t.text := ⟨ht.kind ▸ hsteady t (by simp), ht.text⟩
    have hmore := ih fun u hu => hsteady u (by simp [hu])
    simpa using ⟨hparam, hmore⟩

theorem printsParameter_of_list (h : ParameterList ts names) (hsteady : ∀ t ∈ ts, Steady t.kind t.text.toList) :
    ∀ param ∈ names, PrintsParameter param := by
  cases h with
  | none => simp
  | some _ hparams _ => exact printsParameter_of_derives hparams fun t ht => hsteady t (by simp [ht])

mutual

theorem prints_of_expression {n : Nat} {par : Bool} {ts : List Token} {b : Phrase} :
    Expression n par ts b → (∀ t ∈ ts, Steady t.kind t.text.toList) → ∃ ws, Prints b ws
  | .composition h, hs => prints_of_composition h hs
  | .block h _ _ hlocals _, hs => by
    obtain ⟨us, hus⟩ := prints_of_expression h fun t ht => hs t (by simp [ht])
    obtain ⟨vs, hvs⟩ := prints_of_definitions hlocals fun t ht => hs t (by simp [ht])
    exact ⟨_, .block hus hvs⟩

theorem prints_of_composition {n : Nat} {par : Bool} {tier : Nat} {ts : List Token} {b : Phrase} :
    Composition n par tier ts b → (∀ t ∈ ts, Steady t.kind t.text.toList) → ∃ ws, Prints b ws
  | .operand h, hs => prints_of_arithmetic h hs
  | .tighter h, hs => prints_of_composition h hs
  | .join hleft _ hright, hs => by
    obtain ⟨us, hus⟩ := prints_of_composition hleft fun t ht => hs t (by simp [ht])
    obtain ⟨vs, hvs⟩ := prints_of_composition hright fun t ht => hs t (by simp [ht])
    exact ⟨_, .compose hus hvs⟩

theorem prints_of_arithmetic {n tier : Nat} {ts : List Token} {b : Phrase} :
    Arithmetic n tier ts b → (∀ t ∈ ts, Steady t.kind t.text.toList) → ∃ ws, Prints b ws
  | .operand h, hs => prints_of_postfixed h hs
  | .tighter h, hs => prints_of_arithmetic h hs
  | .join hleft ht hright, hs => by
    obtain ⟨us, hus⟩ := prints_of_arithmetic hleft fun t ht => hs t (by simp [ht])
    obtain ⟨vs, hvs⟩ := prints_of_arithmetic hright fun t ht => hs t (by simp [ht])
    exact prints_arithmetic (hs _ (by simp)) ht hus hvs

theorem prints_of_postfixed {n : Nat} {ts : List Token} {b : Phrase} :
    Postfix n ts b → (∀ t ∈ ts, Steady t.kind t.text.toList) → ∃ ws, Prints b ws
  | .primary h, hs => prints_of_primary h hs
  | .prime h _, hs => by
    obtain ⟨us, hus⟩ := prints_of_postfixed h fun t ht => hs t (by simp [ht])
    exact prints_delayed hus

theorem prints_of_primary {n : Nat} {ts : List Token} {b : Phrase} :
    Primary n ts b → (∀ t ∈ ts, Steady t.kind t.text.toList) → ∃ ws, Prints b ws
  | .name h, hs => ⟨_, prints_token (hs _ (by simp)) (Or.inl (Or.inl h))⟩
  | .number h hvalue, hs => ⟨_, .number (h ▸ hs _ (by simp)) hvalue⟩
  | .negative _ h hvalue, hs => ⟨_, .negative (h ▸ hs _ (by simp)) hvalue⟩
  | .string _, _ => ⟨_, .string⟩
  | .parentheses _ h _, hs => prints_of_expression h fun t ht => hs t (by simp [ht])
  | .operator h, hs => ⟨_, prints_token (hs _ (by simp)) (Or.inl (isHead_of_isArithmetic h))⟩
  | .cut h, hs => by
    have hword := isOperator_word h
    exact ⟨_, prints_token (hs _ (by simp)) (Or.inr hword)⟩
  | .call ht _ h _, hs => by
    obtain ⟨ws, hws⟩ := prints_of_arguments h fun t ht => hs t (by simp [ht])
    exact ⟨_, .call (hs _ (by simp)) (isHead_of_isCallable ht) hws⟩

theorem prints_of_arguments {n : Nat} {ts : List Token} {bs : List Phrase} :
    Grammar.Arguments n ts bs → (∀ t ∈ ts, Steady t.kind t.text.toList) → ∃ ws, PrintsArguments bs ws
  | .last h, hs => by
    obtain ⟨ws, hws⟩ := prints_of_expression h hs
    exact ⟨_, .last hws⟩
  | .more h _ hmore, hs => by
    obtain ⟨us, hus⟩ := prints_of_expression h fun t ht => hs t (by simp [ht])
    obtain ⟨vs, hvs⟩ := prints_of_arguments hmore fun t ht => hs t (by simp [ht])
    exact ⟨_, .more hus hvs⟩

theorem prints_of_definition {n : Nat} {ts : List Token} {d : Phrase} :
    Grammar.Definition n ts d → (∀ t ∈ ts, Steady t.kind t.text.toList) → ∃ ws, PrintsDefinition d ws
  | .intro hname hparams _ h _, hs => by
    obtain ⟨ws, hws⟩ := prints_of_expression h fun t ht => hs t (by simp [ht])
    have hparams' := printsParameter_of_list hparams fun t ht => hs t (by simp [ht])
    exact ⟨_, .intro (hname ▸ hs _ (by simp)) hparams' hws⟩

theorem prints_of_definitions {n : Nat} {ts : List Token} {ds : List Phrase} :
    Definitions n ts ds → (∀ t ∈ ts, Steady t.kind t.text.toList) → ∃ ws, PrintsDefinitions ds ws
  | .nil, _ => ⟨_, .nil⟩
  | .cons h hmore, hs => by
    obtain ⟨us, hus⟩ := prints_of_definition h fun t ht => hs t (by simp [ht])
    obtain ⟨vs, hvs⟩ := prints_of_definitions hmore fun t ht => hs t (by simp [ht])
    exact ⟨_, .cons hus hvs⟩

end

/-! ## Printed texts -/

theorem steady_symbol (op : Operator) : Steady .operator op.symbol.toList := by
  cases op with
  | seq => exact steady_of_alone (c := ':') rfl
  | par => exact steady_of_alone (c := ',') rfl
  | split => exact steady_of_alone (c := '<') rfl
  | merge => exact steady_of_alone (c := ':') rfl
  | recur => exact steady_of_alone (c := '~') rfl

theorem spells_compose {op : Operator} {a b : String} (ha : Spells a us) (hb : Spells b vs) :
    Spells (a ++ " " ++ op.symbol ++ " " ++ b) (us ++ .operator op.symbol :: vs) := by
  have hall := (ha.spaced (Spells.word (steady_symbol op))).spaced hb
  rw [List.append_assoc] at hall
  exact hall

theorem minus_ne_empty (text : String) : "-" ++ text ≠ "" := by
  intro heq
  have hlist := congrArg String.toList heq
  simp at hlist

theorem numberText_of_steady {kind : TokenKind} (value : Binary64) (h : Steady kind text.toList) :
    numberText value text = text := by
  rw [numberText, if_pos h.ne_empty]

/-- The sign of a negative number needs no delimiter. -/
theorem spells_negative (value : Binary64) (h : Steady .number text.toList) :
    Spells (numberText value ("-" ++ text)) [.operator "-", ⟨.number, text⟩] := by
  rw [numberText, if_pos (minus_ne_empty text)]
  intro rest more hrest hread
  have htext : ("-" ++ text).toList ++ rest = '-' :: (text.toList ++ rest) := by simp
  rw [htext]
  exact (Spells.word h rest more hrest hread).minus

theorem spells_parameters (h : ∀ param ∈ params, PrintsParameter param) :
    Spells (", ".intercalate params) (parameterWords params) := by
  induction params with
  | nil => exact .empty
  | cons param params ih =>
    have hparam := Spells.word (h param (by simp)).steady
    have hmore := ih fun other hother => h other (by simp [hother])
    cases params with
    | nil =>
      rw [String.intercalate_singleton]
      exact hparam
    | cons other params =>
      rw [String.intercalate_cons_cons]
      exact hparam.comma hmore

theorem spells_parameterList {name : String} (hname : Steady .identifier name.toList)
    (h : ∀ param ∈ params, PrintsParameter param) :
    Spells (name ++ paramsText params) (⟨.identifier, name⟩ :: parameterListWords params) := by
  have hword := Spells.word hname
  unfold paramsText parameterListWords
  cases hempty : params.isEmpty with
  | true => simpa using hword
  | false =>
    have henclosed := hword.enclosed (spells_parameters h)
    have htext : name ++ ("(" ++ ", ".intercalate params ++ ")")
        = name ++ "(" ++ ", ".intercalate params ++ ")" := by
      simp only [String.append_assoc]
    rw [if_neg (by simp), if_neg (by simp), htext]
    exact henclosed

theorem PrintsArguments.exists_cons {args : List Phrase} (h : PrintsArguments args ws) : ∃ b bs, args = b :: bs := by
  cases h with
  | last _ => exact ⟨_, _, rfl⟩
  | more _ _ => exact ⟨_, _, rfl⟩

mutual

/-- The printed text of a tree spells its words. -/
theorem Prints.spells {p : Phrase} {ws : List Word} : Prints p ws → Spells p.text ws
  | .name hsteady _ => by
    rw [Phrase.text]
    exact .word hsteady
  | .number hsteady _ => by
    rw [Phrase.text, numberText_of_steady _ hsteady]
    exact .word hsteady
  | .negative hsteady _ => by
    rw [Phrase.text]
    exact spells_negative _ hsteady
  | .string => by
    rw [Phrase.text]
    exact .word (steady_quote _)
  | .call hsteady _ h => by
    rw [Phrase.text]
    exact (Spells.word hsteady).enclosed h.spells
  | .compose hleft hright => by
    rw [Phrase.text]
    exact spells_compose (hleft.spells.bracket _) (hright.spells.bracket _)
  | .block h hlocals => by
    rw [Phrase.text]
    exact h.spells.block hlocals.spellsAll.spaced

theorem PrintsArguments.spells {args : List Phrase} {ws : List Word} :
    PrintsArguments args ws → Spells (", ".intercalate (argumentTexts args)) ws
  | .last h => by
    simpa [argumentTexts] using h.spells.bracket _
  | .more h hmore => by
    have hspells := hmore.spells
    obtain ⟨c, cs, rfl⟩ := hmore.exists_cons
    simp only [argumentTexts, String.intercalate_cons_cons] at hspells ⊢
    exact (h.spells.bracket _).comma hspells

theorem PrintsDefinition.spells {d : Phrase} {ws : List Word} : PrintsDefinition d ws → Spells d.text ws
  | .intro hname hparams h => by
    rw [Phrase.text]
    have hspells := ((spells_parameterList hname hparams).equals h.spells).semicolon
    rw [List.append_assoc, List.cons_append, List.cons_append] at hspells
    exact hspells

theorem PrintsDefinitions.spellsAll {ds : List Phrase} {ws : List Word} :
    PrintsDefinitions ds ws → SpellsAll (texts ds) ws
  | .nil => .nil
  | .cons h hmore => .cons h.spells hmore.spellsAll

end

end Patchbay.Phrase
