import Patchbay.Proofs.Scan.Regex
import Patchbay.Proofs.Scan.Steady
import Patchbay.Text.Search

/-!
# Terminals

The classes of pieces that a text is cut into, written as regular expressions. For each class the lengths that the
scanner computes are those of the preferred match: `first_name`, `first_number`, `first_string`, `first_lineComment`,
`first_blockComment`, `first_operator`, `first_mark` and `first_gap`.
-/

open List

namespace Patchbay.Scan

open Regex Number Text

/-- A class of pieces of a text. -/
inductive Terminal where
  | lineComment
  | blockComment
  | operator
  | name
  | number
  | string
  | mark
  | gap
deriving DecidableEq, Repr

/-- Names joined to a name by a point. -/
def dottedRegex : Regex := seq (exact '.') (seq (one isNameStart) (most (one isNamePart)))

/-- Hexadecimal numbers. -/
def hexRegex : Regex := seq (exact '0') (seq (one fun c => c == 'x' || c == 'X') (plus (one isHexDigit)))

/-- Digits with a point before, between or behind them, or without one. -/
def mantissaRegex : Regex :=
  alt (seq (plus (one isDigit)) (seq (exact '.') (most (one isDigit))))
    (alt (seq (exact '.') (plus (one isDigit))) (plus (one isDigit)))

/-- An exponent of ten. -/
def exponentRegex : Regex :=
  seq (one fun c => c == 'e' || c == 'E')
    (seq (alt (one fun c => c == '+' || c == '-') empty) (plus (one isDigit)))

/-- What stands between the quotes of a string: a backslash with a character behind it, or any other character. -/
def unitRegex : Regex :=
  alt (seq (exact '\\') (one (· ≠ '\n'))) (one fun c => c ≠ '"' && c ≠ '\\')

/-- What ends a block comment. -/
def closingRegex : Regex := alt (seq (exact '*') (exact '/')) atEnd

namespace Terminal

/-- How the pieces of a class are written. -/
def regex : Terminal → Regex
  | lineComment => seq (exact '/') (seq (exact '/') (most (one (· ≠ '\n'))))
  | blockComment => seq (exact '/') (seq (exact '*') (seq (least (one fun _ => true)) closingRegex))
  | operator =>
    anyOf ([('<', ':'), (':', '>'), ('<', '='), ('>', '='), ('=', '='), ('!', '='), ('<', '<'), ('>', '>')].map
        (fun pair => seq (exact pair.1) (exact pair.2))
      ++ [one fun c => ":,~+-*/%@!'=<>^&|".toList.contains c])
  | name => seq (one isNameStart) (seq (most (one isNamePart)) (most dottedRegex))
  | number => alt hexRegex (seq mantissaRegex (alt exponentRegex empty))
  | string => seq (exact '"') (seq (most unitRegex) (exact '"'))
  | mark => one fun c => "()\x7b\x7d;".toList.contains c
  | gap => plus (one fun c => " \t\x0c\r\n".toList.contains c)

/-- Classes of higher priority are tried first. -/
def priority : Terminal → Nat
  | lineComment => 3
  | blockComment => 3
  | operator => 2
  | _ => 1

/-- What a class matches at the start of a text, leaving `left`, is what is taken there: no other class of its priority
or above matches. -/
def Takes (t : Terminal) (cs left : List Char) : Prop :=
  t.regex.first cs = some left ∧ ∀ u, u ≠ t → t.priority ≤ u.priority → u.regex.first cs = none

end Terminal

/-! ## Names -/

theorem first_dotted_cons (c : Char) (cs : List Char) :
    dottedRegex.first ('.' :: c :: cs)
      = if isNameStart c then some (cs.dropWhile isNamePart) else none := by
  rw [dottedRegex, first_seq_exact_self]
  by_cases hc : isNameStart c
  · rw [if_pos hc]
    exact first_seq (by rw [first_one_cons, if_pos hc]) (first_most_one _ cs)
  · rw [if_neg hc]
    exact first_seq_of_none (by rw [first_one_cons, if_neg hc]) _

/-- After the characters of a name, its dotted parts go as far as the name goes. -/
theorem follow_dotted (rounds : Nat) (cs : List Char) (h : (cs.dropWhile isNamePart).length ≤ rounds) :
    follow dottedRegex.first rounds (cs.dropWhile isNamePart) = cs.drop (nameLength cs) := by
  have hpoint : ¬ isNamePart '.' := by decide
  fun_induction nameLength cs generalizing rounds with
  | case1 c cs hstart ih =>
    rw [dropWhile_cons_of_neg hpoint] at h
    obtain ⟨k, rfl⟩ : ∃ k, rounds = k + 1 := ⟨rounds - 1, by simp at h; omega⟩
    have hle := (dropWhile_suffix (l := cs) isNamePart).length_le
    have hfirst := first_dotted_cons c cs
    rw [if_pos hstart] at hfirst
    rw [dropWhile_cons_of_neg hpoint, follow_of_some hfirst, ih k (by simp at h; omega)]
    rfl
  | case2 c cs hstart =>
    have hfirst := first_dotted_cons c cs
    rw [if_neg hstart] at hfirst
    rw [dropWhile_cons_of_neg hpoint, follow_of_none hfirst]
    rfl
  | case3 c cs hshape hpart ih =>
    rw [dropWhile_cons_of_pos hpart] at h ⊢
    rw [ih rounds h]
    rfl
  | case4 c cs hshape hpart =>
    have hfirst : dottedRegex.first (c :: cs) = none := by
      by_cases hc : c = '.'
      · subst hc
        cases cs with
        | nil => exact (first_seq_exact_self '.' _ []).trans rfl
        | cons d cs => exact absurd rfl (hshape d cs rfl)
      · exact first_seq_exact_of_ne hc _ cs
    rw [dropWhile_cons_of_neg hpart, follow_of_none hfirst]
    rfl
  | case5 => exact follow_of_none rfl rounds

theorem first_name (c : Char) (cs : List Char) :
    Terminal.name.regex.first (c :: cs)
      = if isNameStart c then some (cs.drop (nameLength cs)) else none := by
  by_cases hc : isNameStart c
  · have hdotted : (most dottedRegex).first (cs.dropWhile isNamePart) = some (cs.drop (nameLength cs)) := by
      rw [first_most, follow_dotted _ cs (Nat.le_refl _)]
    rw [if_pos hc]
    exact first_seq (by rw [first_one_cons, if_pos hc]) (first_seq (first_most_one _ cs) hdotted)
  · rw [if_neg hc]
    exact first_seq_of_none (by rw [first_one_cons, if_neg hc]) _

/-! ## Strings -/

theorem single_unit : Single unitRegex := by
  intro cs
  cases cs with
  | nil => rfl
  | cons c cs =>
    by_cases hback : c = '\\'
    · subst hback
      cases cs with
      | nil => rfl
      | cons d cs =>
        by_cases hline : d = '\n'
        · simp [unitRegex, first, lefts, exact, hline]
        · simp [unitRegex, first, lefts, exact, hline]
    · by_cases hquote : c = '"'
      · simp [unitRegex, first, lefts, exact, hquote]
      · simp [unitRegex, first, lefts, exact, hback, hquote]

theorem first_unit_quote (cs : List Char) : unitRegex.first ('"' :: cs) = none := by
  simp [unitRegex, first, lefts, exact]

theorem first_unit_escaped (c : Char) (cs : List Char) :
    unitRegex.first ('\\' :: c :: cs) = if c = '\n' then none else some cs := by
  by_cases hline : c = '\n'
  · simp [unitRegex, first, lefts, exact, hline]
  · simp [unitRegex, first, lefts, exact, hline]

variable {c : Char} {cs rest whole : List Char}

theorem first_unit_plain (hquote : c ≠ '"') (hback : c ≠ '\\') (cs : List Char) :
    unitRegex.first (c :: cs) = some cs := by
  simp [unitRegex, first, lefts, exact, hquote, hback]

/-- The closing quote can only follow the last of the units, since none starts with a quote. -/
theorem first_string_tail (cs : List Char) :
    (seq (most unitRegex) (exact '"')).first cs
      = (exact '"').first (follow unitRegex.first cs.length cs) := by
  obtain ⟨others, hlefts, hothers⟩ := lefts_most single_unit cs
  show ((seq (most unitRegex) (exact '"')).lefts cs).head? = ((exact '"').lefts _).head?
  rw [lefts_seq hlefts]
  intro ds hds
  cases ds with
  | nil => rfl
  | cons c ds =>
    have hc : c ≠ '"' := by
      rintro rfl
      exact hothers _ hds (first_unit_quote ds)
    simp [exact, lefts, hc]

theorem follow_unit (rounds : Nat) (cs : List Char) (h : cs.length ≤ rounds) :
    (exact '"').first (follow unitRegex.first rounds cs) = (stringLength cs).map cs.drop := by
  fun_induction stringLength cs generalizing rounds with
  | case1 => rw [follow_of_none rfl]; rfl
  | case2 cs =>
    rw [follow_of_none (first_unit_quote cs), first_exact_cons, if_pos rfl]
    rfl
  | case3 cs =>
    have hfirst : unitRegex.first ('\\' :: '\n' :: cs) = none := by rw [first_unit_escaped, if_pos rfl]
    rw [follow_of_none hfirst, first_exact_cons, if_neg (by decide)]
    rfl
  | case4 c cs hline ih =>
    obtain ⟨k, rfl⟩ : ∃ k, rounds = k + 1 := ⟨rounds - 1, by simp at h; omega⟩
    have hfirst : unitRegex.first ('\\' :: c :: cs) = some cs := by rw [first_unit_escaped, if_neg hline]
    rw [follow_of_some hfirst, ih k (by simp at h; omega), Option.map_map]
    rfl
  | case5 => rw [follow_of_none rfl]; rfl
  | case6 c cs hquote hescape hlast ih =>
    have hback : c ≠ '\\' := by
      rintro rfl
      cases cs with
      | nil => exact hlast rfl rfl
      | cons d ds => exact hescape d ds rfl rfl
    obtain ⟨k, rfl⟩ : ∃ k, rounds = k + 1 := ⟨rounds - 1, by simp at h; omega⟩
    rw [follow_of_some (first_unit_plain hquote hback cs), ih k (by simpa using h), Option.map_map]
    rfl

theorem first_string (cs : List Char) :
    Terminal.string.regex.first ('"' :: cs) = (stringLength cs).map cs.drop := by
  unfold Terminal.regex
  rw [first_seq_exact_self, first_string_tail, follow_unit _ cs (Nat.le_refl _)]

/-! ## Comments -/

theorem first_lineComment (cs : List Char) :
    Terminal.lineComment.regex.first ('/' :: '/' :: cs) = some (cs.dropWhile (· ≠ '\n')) := by
  unfold Terminal.regex
  rw [first_seq_exact_self, first_seq_exact_self, first_most_one]

theorem first_closing_cons (c : Char) (cs : List Char) :
    closingRegex.first (c :: cs) = (dropStart? (· == ·) ['*', '/'] (c :: cs)) := by
  rw [closingRegex, first_alt]
  by_cases hc : c = '*'
  · subst hc
    rw [first_seq_exact_self]
    cases cs with
    | nil => rfl
    | cons d cs =>
      rw [first_exact_cons]
      by_cases hd : d = '/'
      · simp [hd, dropStart?]
      · have hd' : '/' ≠ d := fun h => hd h.symm
        simp [hd, hd', dropStart?, first, lefts]
  · have hc' : '*' ≠ c := fun h => hc h.symm
    rw [first_seq_exact_of_ne hc]
    simp [dropStart?, hc', first, lefts]

theorem dropStart?_closing_of_ne (h : ¬ ∃ rest, c = '*' ∧ cs = '/' :: rest) :
    dropStart? (· == ·) ['*', '/'] (c :: cs) = none := by
  by_cases hc : c = '*'
  · subst hc
    cases cs with
    | nil => rfl
    | cons d cs =>
      have hd : '/' ≠ d := by
        rintro rfl
        exact h ⟨cs, rfl, rfl⟩
      simp [dropStart?, hd]
  · have hc' : '*' ≠ c := fun h => hc h.symm
    simp [dropStart?, hc']

/-- The characters of a block comment go on until it can be closed. -/
theorem first_least (cs : List Char) :
    (seq (least (one fun _ => true)) closingRegex).first cs = some (cs.drop (commentLength cs).1) := by
  suffices h : ∀ rounds ds, ds.length ≤ rounds →
      ((repeatLeast (one fun _ => true).lefts rounds ds).flatMap closingRegex.lefts).head?
        = some (ds.drop (commentLength ds).1) from h cs.length cs (Nat.le_refl _)
  intro rounds
  induction rounds with
  | zero =>
    intro ds hds
    obtain rfl : ds = [] := eq_nil_of_length_eq_zero (by omega)
    rfl
  | succ rounds ih =>
    intro ds hds
    rw [repeatLeast, flatMap_cons, head?_append]
    cases ds with
    | nil => rfl
    | cons c ds =>
      have hclosing := first_closing_cons c ds
      unfold first at hclosing
      rw [hclosing]
      by_cases hend : ∃ rest, c = '*' ∧ ds = '/' :: rest
      · obtain ⟨rest, rfl, rfl⟩ := hend
        rfl
      · have hlength : commentLength (c :: ds) = ((commentLength ds).1 + 1, (commentLength ds).2) := by
          rw [commentLength]
          intro rest hc hds
          exact hend ⟨rest, hc, hds⟩
        have hround : (one fun _ => true).lefts (c :: ds) = [ds] := rfl
        rw [dropStart?_closing_of_ne hend, hround, hlength, flatMap_cons, flatMap_nil, append_nil,
          ih ds (by simpa using hds)]
        rfl

theorem first_blockComment (cs : List Char) :
    Terminal.blockComment.regex.first ('/' :: '*' :: cs) = some (cs.drop (commentLength cs).1) := by
  unfold Terminal.regex
  rw [first_seq_exact_self, first_seq_exact_self, first_least]

/-- A block comment is closed if its end occurs anywhere behind its opening. -/
theorem closed_iff_includes (cs : List Char) :
    (commentLength cs).2 = includes ['*', '/'] cs := by
  fun_induction commentLength cs with
  | case1 => rfl
  | case2 cs => rfl
  | case3 c cs hend length closed heq ih =>
    have hopen : ¬ ∃ rest, c = '*' ∧ cs = '/' :: rest := by
      rintro ⟨rest, hc, hcs⟩
      exact hend rest hc hcs
    rw [heq] at ih
    rw [includes, dropStart?_closing_of_ne hopen]
    simpa using ih

/-! ## Operators, marks and gaps -/

theorem first_pair (x y a b : Char) (cs : List Char) :
    (seq (exact x) (exact y)).first (a :: b :: cs) = if (a, b) = (x, y) then some cs else none := by
  by_cases ha : a = x
  · subst ha
    rw [first_seq_exact_self, first_exact_cons]
    simp
  · rw [first_seq_exact_of_ne ha]
    simp [ha]

theorem findSome?_pair (pairs : List (Char × Char)) (pair : Char × Char) (cs : List Char) :
    pairs.findSome? (fun q => if pair = q then some cs else none)
      = if pairs.contains pair then some cs else none := by
  induction pairs with
  | nil => rfl
  | cons q pairs ih =>
    by_cases hq : pair = q
    · simp [hq]
    · have hq' : (pair == q) = false := by simpa using hq
      rw [findSome?_cons, if_neg hq, ih, contains_cons, hq', Bool.false_or]

theorem first_operator (cs : List Char) :
    Terminal.operator.regex.first cs
      = if 0 < operatorLength cs then some (cs.drop (operatorLength cs)) else none := by
  have hclass (c : Char) : ":,~+-*/%@!'=<>^&|".toList.contains c = isMonograph c := rfl
  unfold Terminal.regex
  rw [first_anyOf, findSome?_append, findSome?_map]
  cases cs with
  | nil => rfl
  | cons a cs =>
    -- One character more is needed for an operator of two.
    have hmono (ds : List Char) : [one fun c => ":,~+-*/%@!'=<>^&|".toList.contains c].findSome? (·.first (a :: ds))
        = if isMonograph a then some ds else none := by
      rw [findSome?_cons, first_one_cons, hclass]
      by_cases ha : isMonograph a
      · simp [ha]
      · simp [ha]
    rw [hmono]
    cases cs with
    | nil =>
      have hpairs (pairs : List (Char × Char)) :
          pairs.findSome? ((fun r : Regex => r.first [a]) ∘ fun pair => seq (exact pair.1) (exact pair.2)) = none := by
        rw [findSome?_eq_none_iff]
        intro pair _
        show (seq (exact pair.1) (exact pair.2)).first [a] = none
        by_cases ha : a = pair.1
        · rw [ha, first_seq_exact_self]
          rfl
        · exact first_seq_exact_of_ne ha _ []
      rw [hpairs, operatorLength]
      by_cases ha : isMonograph a
      · simp [ha]
      · simp [ha]
    | cons b cs =>
      have hpairs : ((fun r : Regex => r.first (a :: b :: cs)) ∘ fun pair : Char × Char =>
          seq (exact pair.1) (exact pair.2)) = fun q => if (a, b) = q then some cs else none := by
        funext pair
        exact first_pair pair.1 pair.2 a b cs
      rw [hpairs, findSome?_pair, operatorLength]
      show (if isDigraph a b then some cs else none).or _ = _
      by_cases hdigraph : isDigraph a b
      · simp [hdigraph]
      · by_cases ha : isMonograph a
        · simp [hdigraph, ha]
        · simp [hdigraph, ha]

theorem first_mark (c : Char) (cs : List Char) :
    Terminal.mark.regex.first (c :: cs) = if isPunctuation c then some cs else none :=
  first_one_cons _ c cs

theorem isGap_eq_contains (c : Char) : " \t\x0c\r\n".toList.contains c = isGap c := by
  show [' ', '\t', '\x0c', '\r', '\n'].contains c = isGap c
  simp only [contains_cons, contains_nil, Bool.or_false, isGap, Bool.or_assoc]

theorem first_gap (c : Char) (cs : List Char) :
    Terminal.gap.regex.first (c :: cs) = if isGap c then some (cs.dropWhile isGap) else none := by
  have hclass : (fun c => " \t\x0c\r\n".toList.contains c) = isGap := funext isGap_eq_contains
  unfold Terminal.regex
  rw [hclass]
  by_cases hc : isGap c
  · rw [if_pos hc, first_plus_one_cons hc]
  · rw [if_neg hc]
    apply first_plus_one_of_none
    intro d hd
    obtain rfl : c = d := by simpa using hd
    simpa using hc

/-! ## Numbers -/

theorem first_digits (negative : Bool) (cs : List Char) :
    (plus (one isDigit)).first cs = (signedDigits negative cs).map (·.2) := by
  unfold signedDigits
  cases cs with
  | nil => rfl
  | cons c cs =>
    by_cases hc : isDigit c
    · rw [first_plus_one_cons hc, takeWhile_cons_of_pos hc, dropWhile_cons_of_pos hc]
      rfl
    · have hnone : ∀ d ∈ (c :: cs).head?, isDigit d = false := by
        intro d hd
        obtain rfl : c = d := by simpa using hd
        simpa using hc
      rw [first_plus_one_of_none hnone, takeWhile_cons_of_neg hc]
      rfl

/-- A run of at least one digit followed by something that starts with none. -/
theorem first_seq_digits {s : Regex} (hs : ∀ c cs, isDigit c → s.first (c :: cs) = none)
    (hc : isDigit c) (cs : List Char) :
    (seq (plus (one isDigit)) s).first (c :: cs) = s.first (cs.dropWhile isDigit) := by
  have hplus : (plus (one isDigit)).lefts (c :: cs) = (most (one isDigit)).lefts cs := by
    have hone : (one isDigit).lefts (c :: cs) = [cs] := by rw [lefts, if_pos hc]
    rw [plus, lefts_seq hone (by simp)]
  have hseq : (seq (plus (one isDigit)) s).lefts (c :: cs)
      = (seq (most (one isDigit)) s).lefts cs := by
    rw [lefts, hplus, lefts]
  unfold first
  rw [hseq]
  exact first_seq_run hs cs

/-- A sign is taken if there is one, and digits must follow. -/
theorem first_signed (cs : List Char) :
    (seq (alt (one fun c => c == '+' || c == '-') empty) (plus (one isDigit))).first cs
      = (readExponent cs).map (·.2) := by
  have hsign (c : Char) (hc : (c == '+' || c == '-')) (cs : List Char) :
      (seq (alt (one fun c => c == '+' || c == '-') empty) (plus (one isDigit))).first (c :: cs)
        = (plus (one isDigit)).first cs := by
    have hlefts : (alt (one fun c => c == '+' || c == '-') empty).lefts (c :: cs) = [cs, c :: cs] := by
      rw [lefts, lefts, if_pos hc]
      rfl
    have hback : (plus (one isDigit)).lefts (c :: cs) = [] := by
      apply head?_eq_none_iff.mp
      apply first_plus_one_of_none
      intro d hd
      obtain rfl : c = d := by simpa using hd
      rcases (by simpa using hc : c = '+' ∨ c = '-') with rfl | rfl
      · decide
      · decide
    unfold first
    rw [lefts_seq hlefts (by simpa using hback)]
  have hplain (cs : List Char) (hc : ∀ c ∈ cs.head?, (c == '+' || c == '-') = false) :
      (seq (alt (one fun c => c == '+' || c == '-') empty) (plus (one isDigit))).first cs
        = (plus (one isDigit)).first cs := by
    have hlefts : (alt (one fun c => c == '+' || c == '-') empty).lefts cs = [cs] := by
      cases cs with
      | nil => rfl
      | cons c cs =>
        rw [lefts, lefts, if_neg (by simp [hc c rfl])]
        rfl
    unfold first
    rw [lefts_seq hlefts (by simp)]
  cases cs with
  | nil => rfl
  | cons c cs =>
    by_cases hminus : c = '-'
    · subst hminus
      rw [hsign '-' rfl, readExponent_minus, first_digits true]
    · by_cases hplus : c = '+'
      · subst hplus
        rw [hsign '+' rfl, readExponent_plus, first_digits false]
      · rw [hplain _ (by simp [hminus, hplus]), readExponent_unsigned hminus hplus, first_digits false]

/-- An exponent is taken if it is complete. -/
theorem first_exponent (cs : List Char) :
    (alt exponentRegex empty).first cs = some (exponentPart cs).2 := by
  rw [first_alt]
  have hempty : empty.first cs = some cs := rfl
  rw [hempty]
  cases cs with
  | nil => rfl
  | cons c cs =>
    by_cases hc : (c == 'e' || c == 'E')
    · have hone : (one fun c => c == 'e' || c == 'E').lefts (c :: cs) = [cs] := by rw [lefts, if_pos hc]
      have hfirst : exponentRegex.first (c :: cs) = (readExponent cs).map (·.2) := by
        rw [← first_signed cs]
        unfold first exponentRegex
        rw [lefts_seq hone (by simp)]
      have hpart : exponentPart (c :: cs) = (readExponent cs).getD (0, c :: cs) := by
        rcases (by simpa using hc : c = 'e' ∨ c = 'E') with rfl | rfl
        · rfl
        · rfl
      rw [hfirst, hpart]
      cases readExponent cs with
      | none => rfl
      | some read => rfl
    · have hone : (one fun c => c == 'e' || c == 'E').first (c :: cs) = none := by
        rw [first_one_cons, if_neg hc]
      have hne : c ≠ 'e' ∧ c ≠ 'E' := by simpa using hc
      rw [exponentRegex, first_seq_of_none hone, exponentPart_of_ne (by simpa using hne)]
      rfl

theorem first_digits_point (cs : List Char) : (plus (one isDigit)).first ('.' :: cs) = none := by
  apply first_plus_one_of_none
  intro c hc
  obtain rfl : '.' = c := by simpa using hc
  decide

theorem digit_ne_point (h : isDigit c) : c ≠ '.' := by
  rintro rfl
  exact absurd h (by decide)

/-- Digits with a point behind them go on behind the point. -/
theorem first_mantissa_pointed {fraction : List Char} (hwhole : ∀ c ∈ whole, isDigit c)
    (hfraction : ∀ c ∈ fraction, isDigit c) (hrest : ∀ c ∈ rest.head?, isDigit c = false) :
    mantissaRegex.first (whole ++ '.' :: (fraction ++ rest))
      = if whole = [] ∧ fraction = [] then none else some rest := by
  obtain ⟨-, hdrop⟩ := digits_append hfraction hrest
  have hpoint : ∀ c cs, isDigit c →
      (seq (exact '.') (most (one isDigit))).first (c :: cs) = none :=
    fun c cs hc => first_seq_exact_of_ne (digit_ne_point hc) _ cs
  rw [mantissaRegex, first_alt, first_alt]
  cases whole with
  | nil =>
    rw [nil_append, first_seq_of_none (first_digits_point _), first_seq_exact_self, first_digits_point]
    cases fraction with
    | nil =>
      rw [nil_append, first_plus_one_of_none hrest]
      rfl
    | cons d fraction =>
      have hd := hfraction d (by simp)
      rw [cons_append, dropWhile_cons_of_pos hd] at hdrop
      rw [cons_append, first_plus_one_cons hd, hdrop]
      rfl
  | cons c whole =>
    have hc := hwhole c (by simp)
    have hskip : (whole ++ '.' :: (fraction ++ rest)).dropWhile isDigit = '.' :: (fraction ++ rest) := by
      rw [dropWhile_append_of_pos fun d hd => hwhole d (by simp [hd]),
        dropWhile_cons_of_neg (by decide)]
    rw [cons_append, first_seq_digits hpoint hc, hskip, first_seq_exact_self, first_most_one, hdrop]
    rfl

/-- Digits without a point behind them end where they end. -/
theorem first_mantissa_whole (hwhole : ∀ c ∈ whole, isDigit c)
    (hrest : ∀ c ∈ rest.head?, isDigit c = false ∧ c ≠ '.') :
    mantissaRegex.first (whole ++ rest) = if whole = [] then none else some rest := by
  obtain ⟨-, hdrop⟩ := digits_append hwhole fun c hc => (hrest c hc).1
  have hpoint : ∀ c cs, isDigit c →
      (seq (exact '.') (most (one isDigit))).first (c :: cs) = none :=
    fun c cs hc => first_seq_exact_of_ne (digit_ne_point hc) _ cs
  have hnone (s : Regex) : (seq (exact '.') s).first rest = none := by
    cases rest with
    | nil => exact first_seq_of_none rfl s
    | cons c rest => exact first_seq_exact_of_ne (hrest c rfl).2 s rest
  rw [mantissaRegex, first_alt, first_alt]
  cases whole with
  | nil =>
    have hdigits : (plus (one isDigit)).first rest = none :=
      first_plus_one_of_none fun c hc => (hrest c hc).1
    rw [nil_append, first_seq_of_none hdigits, hnone, hdigits]
    rfl
  | cons c whole =>
    have hc := hwhole c (by simp)
    rw [cons_append, dropWhile_cons_of_pos hc] at hdrop
    rw [cons_append, first_seq_digits hpoint hc, hdrop, hnone,
      first_seq_exact_of_ne (digit_ne_point hc), first_plus_one_cons hc, hdrop]
    rfl

theorem first_decimal (cs : List Char) :
    (seq mantissaRegex (alt exponentRegex empty)).first cs = (readNumeral cs).map (·.2) := by
  obtain ⟨whole, after, hwhole, rfl, hafter⟩ := exists_digits cs
  by_cases hpoint : ∃ more, after = '.' :: more
  · obtain ⟨more, rfl⟩ := hpoint
    obtain ⟨fraction, left, hfraction, rfl, hleft⟩ := exists_digits more
    have hmantissa := first_mantissa_pointed hwhole hfraction hleft
    rw [readNumeral_pointed hwhole hfraction hleft]
    by_cases hempty : whole = [] ∧ fraction = []
    · rw [if_pos hempty] at hmantissa ⊢
      exact first_seq_of_none hmantissa _
    · rw [if_neg hempty] at hmantissa ⊢
      exact first_seq hmantissa (first_exponent left)
  · have hafter' : ∀ c ∈ after.head?, isDigit c = false ∧ c ≠ '.' := by
      intro c hc
      refine ⟨hafter c hc, ?_⟩
      rintro rfl
      obtain ⟨more, hmore⟩ := head?_eq_some_iff.mp hc
      exact hpoint ⟨more, hmore⟩
    have hmantissa := first_mantissa_whole hwhole hafter'
    rw [readNumeral_whole hwhole hafter']
    by_cases hempty : whole = []
    · rw [if_pos hempty] at hmantissa ⊢
      exact first_seq_of_none hmantissa _
    · rw [if_neg hempty] at hmantissa ⊢
      exact first_seq hmantissa (first_exponent after)

theorem first_hex_of_starts (h : startsHex cs) :
    hexRegex.first cs = some (cs.drop (numberLength cs)) ∧ 0 < numberLength cs := by
  obtain ⟨x, digits, rfl, hletter, hdigits⟩ := exists_of_startsHex h
  rw [numberLength_of_hex h]
  refine ⟨?_, by omega⟩
  cases digits with
  | nil => simp at hdigits
  | cons d digits =>
    have hd : isHexDigit d := by
      by_cases hd : isHexDigit d
      · exact hd
      · rw [takeWhile_cons_of_neg hd] at hdigits
        simp at hdigits
    have hdrop : ('0' :: x :: d :: digits).drop (((d :: digits).takeWhile isHexDigit).length + 2)
        = digits.dropWhile isHexDigit := by
      rw [takeWhile_cons_of_pos hd]
      show digits.drop (digits.takeWhile isHexDigit).length = _
      exact drop_length_takeWhile _ digits
    rw [hdrop, hexRegex, first_seq_exact_self]
    exact first_seq (by rw [first_one_cons, if_pos hletter]) (first_plus_one_cons hd digits)

theorem first_hex_of_not_starts (h : startsHex cs = false) : hexRegex.first cs = none := by
  rw [hexRegex]
  cases cs with
  | nil => exact first_seq_of_none rfl _
  | cons c cs =>
    by_cases hc : c = '0'
    · subst hc
      rw [first_seq_exact_self]
      cases cs with
      | nil => exact first_seq_of_none rfl _
      | cons x digits =>
        by_cases hx : (x == 'x' || x == 'X')
        · have hnone : (plus (one isHexDigit)).first digits = none := by
            apply first_plus_one_of_none
            intro d hd
            obtain ⟨more, rfl⟩ := head?_eq_some_iff.mp hd
            rw [Bool.eq_false_iff]
            intro hdigit
            simp [startsHex, hx, hdigit] at h
          have hone : (one fun c => c == 'x' || c == 'X').lefts (x :: digits) = [digits] := by
            rw [lefts, if_pos hx]
          unfold first at hnone ⊢
          rw [lefts_seq hone (by simp), hnone]
        · exact first_seq_of_none (by rw [first_one_cons, if_neg hx]) _
    · exact first_seq_exact_of_ne hc _ cs

theorem first_number (cs : List Char) :
    Terminal.number.regex.first cs
      = if 0 < numberLength cs then some (cs.drop (numberLength cs)) else none := by
  unfold Terminal.regex
  rw [first_alt]
  by_cases hhex : startsHex cs
  · obtain ⟨hfirst, hpos⟩ := first_hex_of_starts hhex
    rw [hfirst, if_pos hpos]
    rfl
  · have hhex' : startsHex cs = false := by simpa using hhex
    rw [first_hex_of_not_starts hhex', first_decimal, numberLength_of_decimal hhex']
    cases hread : readNumeral cs with
    | none =>
      have hlength : decimalLength cs = 0 := by
        unfold decimalLength
        rw [hread]
      rw [hlength]
      rfl
    | some read =>
      obtain ⟨numeral, rest⟩ := read
      obtain ⟨pre, rfl, -, -, hdelim⟩ := readNumeral_delimited hread
      have hpre : pre ≠ [] := by
        rintro rfl
        have hnone := hdelim [] delimits_nil
        simp [readNumeral] at hnone
      have hlength : decimalLength (pre ++ rest) = pre.length := by
        unfold decimalLength
        rw [hread]
        simp
      rw [hlength, if_pos (length_pos_iff.mpr hpre), drop_left]
      rfl

end Patchbay.Scan
