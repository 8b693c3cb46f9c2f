import Patchbay.Program.Parser
import Patchbay.Program.Printer
import Patchbay.Proofs.Scan.Steady

/-!
# What printed texts spell

A text spells words if it is cut into these words whenever a delimiter follows it. The texts of a printer are
put together from a few patterns: texts with a blank, a comma or an equals sign between them, texts in
parentheses or before a semicolon. For each pattern one lemma says what it spells.
-/

open List

namespace Patchbay

namespace Word

/-- A punctuation mark. -/
def mark (text : String) : Word := ⟨.punctuation, text⟩

/-- An operator. -/
def operator (text : String) : Word := ⟨.operator, text⟩

/-- A keyword. -/
def keyword (text : String) : Word := ⟨.keyword, text⟩

/-- Words in parentheses, if told so. -/
def bracket (brackets : Bool) (words : List Word) : List Word :=
  if brackets then mark "(" :: (words ++ [mark ")"]) else words

end Word

variable {c : Char} {gap : String} {ws : List Word} {ts : List String}

namespace Scan

/-- The text is cut into the words whenever a delimiter follows. -/
def Spells (text : String) (words : List Word) : Prop :=
  ∀ rest more, Delimits rest → Reads rest more → Reads (text.toList ++ rest) (words ++ more)

theorem Spells.word {kind : TokenKind} {text : String} (h : Steady kind text.toList) : Spells text [⟨kind, text⟩] := by
  intro rest more hrest hread
  have htoken := Reads.steady h hrest hread
  rwa [String.ofList_toList] at htoken

theorem Spells.empty : Spells "" [] := by
  intro rest more _ hread
  exact hread

/-! ## Patterns -/

section

variable {a b : String} {us vs : List Word}

/-- A blank or a line feed between two texts. -/
theorem Spells.gapped (hgap : gap.toList = [c]) (hblank : isGap c) (hdelim : isDelimiter c)
    (ha : Spells a us) (hb : Spells b vs) : Spells (a ++ gap ++ b) (us ++ vs) := by
  intro rest more hrest hread
  have htext : (a ++ gap ++ b).toList ++ rest = a.toList ++ c :: (b.toList ++ rest) := by simp [hgap]
  rw [htext, List.append_assoc]
  exact ha _ _ (delimits_cons hdelim _) ((hb rest more hrest hread).gap hblank)

variable (ha : Spells a us)

include ha

theorem Spells.spaced (hb : Spells b vs) : Spells (a ++ " " ++ b) (us ++ vs) :=
  ha.gapped rfl (by decide) (by decide) hb

theorem Spells.semicolon : Spells (a ++ ";") (us ++ [.mark ";"]) := by
  intro rest more _ hread
  have htext : (a ++ ";").toList ++ rest = a.toList ++ ';' :: rest := by simp
  rw [htext, List.append_assoc]
  exact ha _ _ (delimits_cons (by decide) _) (hread.mark (by decide))

/-- A text in parentheses, after a head if that is not empty. -/
theorem Spells.enclosed (hb : Spells b vs) :
    Spells (a ++ "(" ++ b ++ ")") (us ++ .mark "(" :: (vs ++ [.mark ")"])) := by
  intro rest more _ hread
  have htext : (a ++ "(" ++ b ++ ")").toList ++ rest
      = a.toList ++ '(' :: (b.toList ++ ')' :: rest) := by simp
  have hwords : us ++ .mark "(" :: (vs ++ [.mark ")"]) ++ more
      = us ++ .mark "(" :: (vs ++ .mark ")" :: more) := by simp
  rw [htext, hwords]
  have hclose := hb _ _ (delimits_cons (by decide) _) (hread.mark (by decide : isPunctuation ')'))
  exact ha _ _ (delimits_cons (by decide) _) (hclose.mark (by decide))

theorem Spells.bracket (brackets : Bool) : Spells (Phrase.bracket brackets a) (Word.bracket brackets us) := by
  cases brackets with
  | false => exact ha
  | true =>
    have hempty : Spells ("" ++ "(" ++ a ++ ")") ([] ++ .mark "(" :: (us ++ [.mark ")"])) :=
      Spells.empty.enclosed ha
    simpa [Phrase.bracket, Word.bracket] using hempty

/-- A comma is an operator; a blank follows it. -/
theorem Spells.comma (hb : Spells b vs) : Spells (a ++ ", " ++ b) (us ++ .operator "," :: vs) := by
  intro rest more hrest hread
  have htext : (a ++ ", " ++ b).toList ++ rest = a.toList ++ ([','] ++ ' ' :: (b.toList ++ rest)) := by
    simp
  rw [htext, List.append_assoc]
  have hafter := (hb rest more hrest hread).space
  have hcomma : Steady .operator [','] := steady_of_alone rfl
  exact ha _ _ (delimits_cons (by decide) _) (.steady hcomma (delimits_cons (by decide) _) hafter)

theorem Spells.equals (hb : Spells b vs) : Spells (a ++ " = " ++ b) (us ++ .operator "=" :: vs) := by
  intro rest more hrest hread
  have htext : (a ++ " = " ++ b).toList ++ rest
      = a.toList ++ ' ' :: (['='] ++ ' ' :: (b.toList ++ rest)) := by simp
  rw [htext, List.append_assoc]
  have hafter := (hb rest more hrest hread).space
  have hequals : Steady .operator ['='] := steady_of_alone rfl
  have hsign := Reads.steady hequals (delimits_cons (by decide) _) hafter
  exact ha _ _ (delimits_cons (by decide) _) hsign.space

/-- A block of definitions after a body. -/
theorem Spells.block (hb : Spells b vs) : Spells (a ++ " with \x7b " ++ b ++ " \x7d")
      (us ++ .keyword "with" :: .mark "\x7b" :: (vs ++ [.mark "\x7d"])) := by
  intro rest more _ hread
  have htext : (a ++ " with \x7b " ++ b ++ " \x7d").toList ++ rest
      = a.toList ++ ' ' :: (['w', 'i', 't', 'h'] ++ ' ' :: '\x7b' :: ' ' ::
        (b.toList ++ ' ' :: '\x7d' :: rest)) := by simp
  have hwords : us ++ .keyword "with" :: .mark "\x7b" :: (vs ++ [.mark "\x7d"]) ++ more
      = us ++ .keyword "with" :: .mark "\x7b" :: (vs ++ .mark "\x7d" :: more) := by simp
  rw [htext, hwords]
  have hclose := (hread.mark (by decide : isPunctuation '\x7d')).space
  have hlocals := (hb _ _ (delimits_cons (by decide) _) hclose).space
  have hopen := (hlocals.mark (by decide : isPunctuation '\x7b')).space
  have hwith : Steady .keyword ['w', 'i', 't', 'h'] := steady_of_alone (by decide)
  have hkeyword := Reads.steady hwith (delimits_cons (by decide) _) hopen
  exact ha _ _ (delimits_cons (by decide) _) hkeyword.space

end

/-- Texts one by one, and the words of all of them. -/
inductive SpellsAll : List String → List Word → Prop
  | nil : SpellsAll [] []
  | cons {t : String} {ts : List String} {us vs : List Word} :
      Spells t us → SpellsAll ts vs → SpellsAll (t :: ts) (us ++ vs)

theorem SpellsAll.append {us : List String} {vs : List Word} (h : SpellsAll ts vs) (h' : SpellsAll us ws) :
    SpellsAll (ts ++ us) (vs ++ ws) := by
  induction h with
  | nil => exact h'
  | cons ht _ ih =>
    rw [List.append_assoc]
    exact .cons ht ih

/-- Texts with blanks or line feeds between them. -/
theorem SpellsAll.joined (hgap : gap.toList = [c]) (hblank : isGap c) (hdelim : isDelimiter c)
    (h : SpellsAll ts ws) : Spells (gap.intercalate ts) ws := by
  induction h with
  | nil => exact .empty
  | @cons t ts us vs ht hts ih =>
    cases hts with
    | nil => simpa using ht
    | cons hu hus =>
      rw [String.intercalate_cons_cons]
      exact ht.gapped hgap hblank hdelim ih

theorem SpellsAll.spaced (h : SpellsAll ts ws) : Spells (" ".intercalate ts) ws :=
  h.joined rfl (by decide) (by decide)

/-! ## Strings -/

theorem escaped_backslash : Phrase.escaped '\\' = ['\\', '\\'] := rfl

theorem escaped_quote : Phrase.escaped '"' = ['\\', '"'] := rfl

theorem escaped_plain (hback : c ≠ '\\') (hquote : c ≠ '"') : Phrase.escaped c = [c] := by
  rw [Phrase.escaped, if_neg hback, if_neg hquote]

theorem stringLength_escaped (cs rest : List Char) : stringLength (cs.flatMap Phrase.escaped ++ '"' :: rest)
      = some ((cs.flatMap Phrase.escaped).length + 1) := by
  induction cs with
  | nil => rfl
  | cons c cs ih =>
    rw [flatMap_cons, List.append_assoc]
    by_cases hback : c = '\\'
    · rw [hback, escaped_backslash, cons_append, cons_append, nil_append, stringLength,
        if_neg (by decide), ih]
      rfl
    · by_cases hquote : c = '"'
      · rw [hquote, escaped_quote, cons_append, cons_append, nil_append, stringLength,
          if_neg (by decide), ih]
        rfl
      · rw [escaped_plain hback hquote, cons_append, nil_append,
          stringLength_plain hquote hback, ih]
        rfl

/-- A quoted text is one string token. -/
theorem steady_quote (value : String) : Steady .string (Phrase.quote value).toList := by
  refine ⟨'"', value.toList.flatMap Phrase.escaped ++ ['"'], by simp [Phrase.quote], fun rest _ => ?_⟩
  have hmono : isMonograph '"' = false := by decide
  have hlen := stringLength_escaped value.toList rest
  rw [lexeme_of_not_monograph hmono, List.append_assoc, singleton_append, plainLexeme_quote hlen]
  simp

end Scan

namespace Parser

open Scan

theorem unescapeQuotes_keep {cs : List Char} (h : c ≠ '\\' ∨ cs.head? ≠ some '"') :
    unescapeQuotes (c :: cs) = c :: unescapeQuotes cs := by
  rw [unescapeQuotes]
  rintro ds rfl rfl
  simp at h

theorem unescapeBackslashes_keep (h : c ≠ '\\') (cs : List Char) :
    unescapeBackslashes (c :: cs) = c :: unescapeBackslashes cs := by
  rw [unescapeBackslashes]
  rintro ds rfl
  exact absurd rfl h

theorem head?_escaped (cs : List Char) : (cs.flatMap Phrase.escaped).head? ≠ some '"' := by
  cases cs with
  | nil => simp
  | cons c cs =>
    rw [flatMap_cons]
    by_cases hback : c = '\\'
    · simp [hback, escaped_backslash]
    · by_cases hquote : c = '"'
      · simp [hquote, escaped_quote]
      · simp [escaped_plain hback hquote, hquote]

/-- Backslashes are doubled and quotes are not touched. -/
def doubled (c : Char) : List Char := if c = '\\' then ['\\', '\\'] else [c]

/-- When the quotes are restored, only doubled backslashes are left. -/
theorem unescapeQuotes_escaped (cs : List Char) : unescapeQuotes (cs.flatMap Phrase.escaped) = cs.flatMap doubled := by
  induction cs with
  | nil => rfl
  | cons c cs ih =>
    rw [flatMap_cons, flatMap_cons, ← ih]
    by_cases hback : c = '\\'
    · subst hback
      -- The second backslash is not followed by a quote of its own, so neither is taken away.
      rw [escaped_backslash, cons_append, cons_append, nil_append,
        unescapeQuotes_keep (Or.inr (by simp)), unescapeQuotes_keep (Or.inr (head?_escaped cs))]
      rfl
    · have hdoubled : doubled c = [c] := if_neg hback
      by_cases hquote : c = '"'
      · rw [hdoubled, hquote, escaped_quote]
        rfl
      · rw [hdoubled, escaped_plain hback hquote]
        exact unescapeQuotes_keep (Or.inl hback)

theorem unescapeBackslashes_doubled (cs : List Char) : unescapeBackslashes (cs.flatMap doubled) = cs := by
  induction cs with
  | nil => rfl
  | cons c cs ih =>
    rw [flatMap_cons]
    by_cases hback : c = '\\'
    · subst hback
      have hdoubled : doubled '\\' = ['\\', '\\'] := rfl
      rw [hdoubled, cons_append, cons_append, nil_append, unescapeBackslashes, ih]
    · have hdoubled : doubled c = [c] := if_neg hback
      rw [hdoubled, cons_append, nil_append, unescapeBackslashes_keep hback, ih]

/-- Every value is read back from its quoted text. -/
theorem unquote_quote (value : String) : unquote (Phrase.quote value) = value := by
  have hinner : ((Phrase.quote value).toList.drop 1).dropLast = value.toList.flatMap Phrase.escaped := by
    simp [Phrase.quote]
  rw [unquote, hinner, unescapeQuotes_escaped, unescapeBackslashes_doubled, String.ofList_toList]

end Parser

end Patchbay
