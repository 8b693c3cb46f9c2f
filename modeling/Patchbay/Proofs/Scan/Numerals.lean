import Patchbay.Proofs.Scan.Words

/-!
# Numerals before a delimiter

A numeral goes as far as it can: digits, a point with more digits, and an exponent if that is complete. What was
cut off as a numeral is cut off in the same way when a delimiter follows it, since none of
its parts goes on into a delimiter.
-/

open List

namespace Patchbay.Scan

open Number Text

theorem isDigit_delimiter : ∀ c ∈ [' ', '\n', '(', ')', ',', ';'], isDigit c = false :=
  all_iff_forall_prop.mp (by decide)

variable {e : Int} {c x : Char} {cs pre rest whole digits : List Char}

theorem not_digit_of_mem (hcs : ∀ d ∈ cs, isDigit d) (hc : isDigit c = false) : c ∉ cs := by
  intro hmem
  exact absurd (hcs c hmem) (by simp [hc])

/-! ## Exponents -/

/-- The number of the digits at the start of a text, with a sign, and what follows them. -/
def signedDigits (negative : Bool) (cs : List Char) : Option (Int × List Char) :=
  match cs.takeWhile isDigit with
  | [] => none
  | digits =>
    let value : Int := decimalValue digits
    some (if negative then -value else value, cs.dropWhile isDigit)

theorem readExponent_minus (cs : List Char) : readExponent ('-' :: cs) = signedDigits true cs := rfl

theorem readExponent_plus (cs : List Char) : readExponent ('+' :: cs) = signedDigits false cs := rfl

theorem readExponent_unsigned (hminus : c ≠ '-') (hplus : c ≠ '+') :
    readExponent (c :: cs) = signedDigits false (c :: cs) := by
  unfold readExponent
  split
  rename_i negative ds heq
  obtain ⟨rfl, rfl⟩ : false = negative ∧ c :: cs = ds := by
    split at heq
    · simp_all
    · simp_all
    · exact Prod.mk.inj heq
  rfl

/-- Digits are the same before a delimiter. -/
theorem signedDigits_delimited {negative : Bool} (h : signedDigits negative cs = some (e, rest)) :
    ∃ c ds, cs = c :: ds ++ rest ∧ (∀ d ∈ c :: ds, isDigit d) ∧
      ∀ rest', Delimits rest' → signedDigits negative (c :: ds ++ rest') = some (e, rest') := by
  unfold signedDigits at h
  have hsplit := takeWhile_append_dropWhile (p := isDigit) (l := cs)
  have hdigits : ∀ d ∈ cs.takeWhile isDigit, isDigit d :=
    fun d hd => all_eq_true.mp all_takeWhile d hd
  cases htake : cs.takeWhile isDigit with
  | nil => simp [htake] at h
  | cons c ds =>
    rw [htake] at h hsplit hdigits
    obtain ⟨rfl, rfl⟩ := h
    refine ⟨c, ds, hsplit.symm, hdigits, fun rest' hrest' => ?_⟩
    unfold signedDigits
    rw [hrest'.takeWhile isDigit_delimiter hdigits, hrest'.dropWhile isDigit_delimiter hdigits]

/-- An exponent is the same before a delimiter. -/
theorem readExponent_delimited (h : readExponent cs = some (e, rest)) :
    ∃ pre, cs = pre ++ rest ∧ 'x' ∉ pre ∧ 'X' ∉ pre ∧
      ∀ rest', Delimits rest' → readExponent (pre ++ rest') = some (e, rest') := by
  have hx : isDigit 'x' = false ∧ isDigit 'X' = false := by decide
  cases cs with
  | nil => simp [readExponent] at h
  | cons s cs =>
    by_cases hminus : s = '-'
    · subst hminus
      rw [readExponent_minus] at h
      obtain ⟨c, ds, rfl, hds, hread⟩ := signedDigits_delimited h
      have h₁ := not_digit_of_mem hds hx.1
      have h₂ := not_digit_of_mem hds hx.2
      exact ⟨'-' :: c :: ds, rfl, by simp_all, by simp_all, hread⟩
    · by_cases hplus : s = '+'
      · subst hplus
        rw [readExponent_plus] at h
        obtain ⟨c, ds, rfl, hds, hread⟩ := signedDigits_delimited h
        have h₁ := not_digit_of_mem hds hx.1
        have h₂ := not_digit_of_mem hds hx.2
        exact ⟨'+' :: c :: ds, rfl, by simp_all, by simp_all, hread⟩
      · rw [readExponent_unsigned hminus hplus] at h
        obtain ⟨c, ds, hcs, hds, hread⟩ := signedDigits_delimited h
        obtain rfl : s = c := (List.cons.inj hcs).1
        refine ⟨s :: ds, hcs, not_digit_of_mem hds hx.1, not_digit_of_mem hds hx.2, ?_⟩
        intro rest' hrest'
        rw [cons_append, readExponent_unsigned hminus hplus]
        exact hread rest' hrest'

/-- The exponent at the start of a text, and what follows it; zero if there is none. -/
def exponentPart (cs : List Char) : Int × List Char :=
  match cs with
  | 'e' :: rest | 'E' :: rest => (readExponent rest).getD (0, cs)
  | _ => (0, cs)

theorem exponentPart_of_ne (h : ∀ c ∈ cs.head?, c ≠ 'e' ∧ c ≠ 'E') : exponentPart cs = (0, cs) := by
  unfold exponentPart
  split
  · simp at h
  · simp at h
  · rfl

theorem delimiter_ne (h : Delimits rest) (hx : isDelimiter x = false) : ∀ c ∈ rest.head?, c ≠ x := by
  rintro c hc rfl
  exact absurd (h c hc) (by simp [hx])

theorem exponentPart_of_delimits (h : Delimits rest) : exponentPart rest = (0, rest) :=
  exponentPart_of_ne fun c hc =>
    ⟨delimiter_ne h (by decide) c hc, delimiter_ne h (by decide) c hc⟩

/-- An exponent, or its absence, is the same before a delimiter; and it does not start with a digit or a
point. -/
theorem exponentPart_delimited (cs : List Char) :
    ∃ pre, cs = pre ++ (exponentPart cs).2 ∧ 'x' ∉ pre ∧ 'X' ∉ pre ∧
      (∀ c ∈ pre.head?, c = 'e' ∨ c = 'E') ∧
      ∀ rest, Delimits rest → exponentPart (pre ++ rest) = ((exponentPart cs).1, rest) := by
  -- A letter that no exponent follows is left to the text after the numeral.
  have hnone (h : exponentPart cs = (0, cs)) : ∃ pre, cs = pre ++ (exponentPart cs).2 ∧ 'x' ∉ pre ∧
      'X' ∉ pre ∧ (∀ c ∈ pre.head?, c = 'e' ∨ c = 'E') ∧
      ∀ rest, Delimits rest → exponentPart (pre ++ rest) = ((exponentPart cs).1, rest) := by
    rw [h]
    refine ⟨[], rfl, by simp, by simp, by simp, fun rest hrest => ?_⟩
    exact exponentPart_of_delimits hrest
  cases cs with
  | nil => exact hnone rfl
  | cons c cs =>
    by_cases hc : c = 'e' ∨ c = 'E'
    · have hpart (ds : List Char) : exponentPart (c :: ds) = (readExponent ds).getD (0, c :: ds) := by
        rcases hc with rfl | rfl
        · rfl
        · rfl
      cases hread : readExponent cs with
      | none => exact hnone (by rw [hpart, hread]; rfl)
      | some read =>
        obtain ⟨e, rest⟩ := read
        obtain ⟨pre, rfl, h₁, h₂, hdelim⟩ := readExponent_delimited hread
        have hx : 'x' ≠ c ∧ 'X' ≠ c := by
          rcases hc with rfl | rfl
          · decide
          · decide
        rw [hpart, hread]
        refine ⟨c :: pre, rfl, by simp [h₁, hx], by simp [h₂, hx], by simpa using hc, ?_⟩
        intro rest' hrest'
        rw [cons_append, hpart, hdelim rest' hrest']
        rfl
    · have hc' : c ≠ 'e' ∧ c ≠ 'E' := not_or.mp hc
      exact hnone (exponentPart_of_ne (by simpa using hc'))

/-! ## Decimal numerals -/

/-- The numeral with these digits and the exponent that follows them. -/
def withExponent (whole fraction rest : List Char) : Numeral × List Char :=
  (⟨whole, fraction, (exponentPart rest).1⟩, (exponentPart rest).2)

theorem some_withExponent (whole fraction rest : List Char) :
    (match rest with
      | 'e' :: cs | 'E' :: cs =>
        match readExponent cs with
        | some (exponent, rest') => some (⟨whole, fraction, exponent⟩, rest')
        | none => some (⟨whole, fraction, 0⟩, rest)
      | _ => some (⟨whole, fraction, 0⟩, rest)) = some (withExponent whole fraction rest) := by
  unfold withExponent exponentPart
  split
  · rename_i cs
    cases readExponent cs with
    | none => rfl
    | some read => rfl
  · rename_i cs
    cases readExponent cs with
    | none => rfl
    | some read => rfl
  · rfl

/-- Digits end where something else follows them. -/
theorem digits_append (hdigits : ∀ c ∈ digits, isDigit c) (hrest : ∀ c ∈ rest.head?, isDigit c = false) :
    (digits ++ rest).takeWhile isDigit = digits ∧ (digits ++ rest).dropWhile isDigit = rest := by
  rw [takeWhile_append_of_pos hdigits, dropWhile_append_of_pos hdigits]
  cases rest with
  | nil => simp
  | cons c rest => simp [hrest c rfl]

/-- A numeral with a point. -/
theorem readNumeral_pointed {fraction : List Char} (hwhole : ∀ c ∈ whole, isDigit c)
    (hfraction : ∀ c ∈ fraction, isDigit c) (hrest : ∀ c ∈ rest.head?, isDigit c = false) :
    readNumeral (whole ++ '.' :: (fraction ++ rest))
      = if whole = [] ∧ fraction = [] then none else some (withExponent whole fraction rest) := by
  have hpoint : isDigit '.' = false := by decide
  obtain ⟨htake, hdrop⟩ := digits_append hfraction hrest
  unfold readNumeral
  rw [takeWhile_append_of_pos hwhole, dropWhile_append_of_pos hwhole]
  simp only [takeWhile_cons, dropWhile_cons, hpoint, Bool.false_eq_true, if_false,
    append_nil, htake, hdrop]
  by_cases hempty : whole = [] ∧ fraction = []
  · rw [if_pos hempty, if_pos (by simp [hempty])]
  · rw [if_neg hempty, if_neg (by simpa using hempty)]
    exact some_withExponent whole fraction rest

/-- A numeral without a point. -/
theorem readNumeral_whole (hwhole : ∀ c ∈ whole, isDigit c)
    (hrest : ∀ c ∈ rest.head?, isDigit c = false ∧ c ≠ '.') :
    readNumeral (whole ++ rest) = if whole = [] then none else some (withExponent whole [] rest) := by
  obtain ⟨htake, hdrop⟩ := digits_append hwhole fun c hc => (hrest c hc).1
  unfold readNumeral
  simp only [htake, hdrop]
  split
  · simp at hrest
  · by_cases hempty : whole = []
    · rw [if_pos hempty, if_pos (by simp [hempty])]
    · rw [if_neg hempty, if_neg (by simpa using hempty)]
      exact some_withExponent whole [] rest

/-- Every text is digits and what comes after them. -/
theorem exists_digits (cs : List Char) :
    ∃ whole rest, (∀ c ∈ whole, isDigit c) ∧ cs = whole ++ rest ∧
      ∀ c ∈ rest.head?, isDigit c = false := by
  refine ⟨cs.takeWhile isDigit, cs.dropWhile isDigit, ?_,
    takeWhile_append_dropWhile.symm, ?_⟩
  · exact fun d hd => all_eq_true.mp all_takeWhile d hd
  · intro c hc
    have hhead := head?_dropWhile_not isDigit cs
    rw [Option.mem_def.mp hc] at hhead
    simpa using hhead

/-- What follows the digits of a numeral before a delimiter is no digit and no point. -/
theorem head_of_exponent (hpre : ∀ c ∈ pre.head?, c = 'e' ∨ c = 'E') (hrest : Delimits rest) :
    ∀ c ∈ (pre ++ rest).head?, isDigit c = false ∧ c ≠ '.' := by
  intro c hc
  cases pre with
  | nil =>
    exact ⟨isDigit_delimiter c (mem_of_isDelimiter (hrest c hc)), delimiter_ne hrest (by decide) c hc⟩
  | cons d pre =>
    obtain rfl : d = c := by simpa using hc
    rcases hpre d rfl with rfl | rfl
    · decide
    · decide

/-- A decimal numeral is the same before a delimiter. -/
theorem readNumeral_delimited {n : Numeral} (h : readNumeral cs = some (n, rest)) :
    ∃ pre, cs = pre ++ rest ∧ 'x' ∉ pre ∧ 'X' ∉ pre ∧
      ∀ rest', Delimits rest' → readNumeral (pre ++ rest') = some (n, rest') := by
  have hx : isDigit 'x' = false ∧ isDigit 'X' = false := by decide
  obtain ⟨whole, after, hwhole, rfl, hafter⟩ := exists_digits cs
  by_cases hpoint : ∃ more, after = '.' :: more
  · obtain ⟨more, rfl⟩ := hpoint
    obtain ⟨fraction, left, hfraction, rfl, hleft⟩ := exists_digits more
    rw [readNumeral_pointed hwhole hfraction hleft] at h
    split at h
    · simp at h
    · rename_i hdigits
      obtain ⟨rfl, rfl⟩ : ⟨whole, fraction, (exponentPart left).1⟩ = n ∧ (exponentPart left).2 = rest := by
        simpa [withExponent] using h
      obtain ⟨pre, hpre, h₁, h₂, hhead, hread⟩ := exponentPart_delimited left
      refine ⟨whole ++ '.' :: (fraction ++ pre), ?_, ?_, ?_, ?_⟩
      · conv => lhs; rw [hpre]
        simp
      · simp [not_digit_of_mem hwhole hx.1, not_digit_of_mem hfraction hx.1, h₁]
      · simp [not_digit_of_mem hwhole hx.2, not_digit_of_mem hfraction hx.2, h₂]
      · intro rest' hrest'
        have hshape : whole ++ '.' :: (fraction ++ pre) ++ rest'
            = whole ++ '.' :: (fraction ++ (pre ++ rest')) := by simp
        rw [hshape, readNumeral_pointed hwhole hfraction
          fun c hc => (head_of_exponent hhead hrest' c hc).1, if_neg hdigits]
        simp [withExponent, hread rest' hrest']
  · have hafter' : ∀ c ∈ after.head?, isDigit c = false ∧ c ≠ '.' := by
      intro c hc
      refine ⟨hafter c hc, ?_⟩
      rintro rfl
      obtain ⟨more, hmore⟩ := head?_eq_some_iff.mp hc
      exact hpoint ⟨more, hmore⟩
    rw [readNumeral_whole hwhole hafter'] at h
    split at h
    · simp at h
    · rename_i hdigits
      obtain ⟨rfl, rfl⟩ : ⟨whole, [], (exponentPart after).1⟩ = n ∧ (exponentPart after).2 = rest := by
        simpa [withExponent] using h
      obtain ⟨pre, hpre, h₁, h₂, hhead, hread⟩ := exponentPart_delimited after
      refine ⟨whole ++ pre, ?_, ?_, ?_, ?_⟩
      · conv => lhs; rw [hpre]
        simp
      · simp [not_digit_of_mem hwhole hx.1, h₁]
      · simp [not_digit_of_mem hwhole hx.2, h₂]
      · intro rest' hrest'
        rw [List.append_assoc, readNumeral_whole hwhole (head_of_exponent hhead hrest'),
          if_neg hdigits]
        simp [withExponent, hread rest' hrest']

/-! ## Numbers -/

/-- The text starts with a hexadecimal number. -/
def startsHex : List Char → Bool
  | '0' :: x :: digits => (x == 'x' || x == 'X') && !(digits.takeWhile isHexDigit).isEmpty
  | _ => false

/-- The length of the decimal numeral at the start of a text. -/
def decimalLength (cs : List Char) : Nat :=
  match readNumeral cs with
  | some (_, rest) => cs.length - rest.length
  | none => 0

theorem numberLength_of_hex (h : startsHex ('0' :: x :: digits)) :
    numberLength ('0' :: x :: digits) = (digits.takeWhile isHexDigit).length + 2 := by
  exact if_pos h

theorem numberLength_of_decimal (h : startsHex cs = false) : numberLength cs = decimalLength cs := by
  unfold numberLength
  dsimp only
  split
  · rw [if_neg (by simpa [startsHex] using h)]
    rfl
  · rfl

theorem numberLength_eq_zero (h : isDigit c = false) (hpoint : c ≠ '.') (cs : List Char) :
    numberLength (c :: cs) = 0 := by
  have hnone : readNumeral (c :: cs) = none := by
    have hread : readNumeral ([] ++ c :: cs) = _ :=
      readNumeral_whole (by simp) (by simpa using ⟨h, hpoint⟩)
    simpa using hread
  have hhex : startsHex (c :: cs) = false := by
    unfold startsHex
    split
    · rename_i heq
      obtain ⟨rfl, -⟩ := List.cons.inj heq
      exact absurd h (by decide)
    · rfl
  rw [numberLength_of_decimal hhex, decimalLength, hnone]

theorem isHexDigit_delimiter : ∀ c ∈ [' ', '\n', '(', ')', ',', ';'], isHexDigit c = false :=
  all_iff_forall_prop.mp (by decide)

theorem exists_of_startsHex (h : startsHex cs) :
    ∃ x digits, cs = '0' :: x :: digits ∧ (x == 'x' || x == 'X') ∧
      (digits.takeWhile isHexDigit).isEmpty = false := by
  unfold startsHex at h
  split at h
  · rename_i x digits
    exact ⟨x, digits, rfl, by simpa using h⟩
  · simp at h

/-- A numeral without the letter of hexadecimal numbers starts none of these before a delimiter. -/
theorem startsHex_of_decimal (hpre : pre ≠ []) (hx : 'x' ∉ pre) (hX : 'X' ∉ pre) (hrest : Delimits rest) :
    startsHex (pre ++ rest) = false := by
  rw [Bool.eq_false_iff]
  intro hhex
  obtain ⟨x, digits, hshape, hletter, -⟩ := exists_of_startsHex hhex
  have hletter' : x = 'x' ∨ x = 'X' := by simpa using hletter
  -- The letter would be the second character: one of the numeral, or the delimiter after a lone digit.
  match pre, hpre with
  | [c], _ =>
    have hhead : x ∈ rest.head? := by
      obtain ⟨-, rfl⟩ := List.cons.inj hshape
      rfl
    rcases hletter' with rfl | rfl
    · exact delimiter_ne hrest (by decide) _ hhead rfl
    · exact delimiter_ne hrest (by decide) _ hhead rfl
  | c :: d :: pre, _ =>
    obtain rfl : d = x := by
      have htail := (List.cons.inj hshape).2
      exact (List.cons.inj htail).1
    rcases hletter' with rfl | rfl
    · exact hx (by simp)
    · exact hX (by simp)

/-- A number is the same before a delimiter. -/
theorem numberLength_delimited (h : 0 < numberLength cs) :
    ∃ pre rest, cs = pre ++ rest ∧ pre.length = numberLength cs ∧
      ∀ rest', Delimits rest' → numberLength (pre ++ rest') = pre.length := by
  by_cases hhex : startsHex cs
  · obtain ⟨x, digits, rfl, hletter, hdigits⟩ := exists_of_startsHex hhex
    have hall : ∀ d ∈ digits.takeWhile isHexDigit, isHexDigit d :=
      fun d hd => all_eq_true.mp all_takeWhile d hd
    refine ⟨'0' :: x :: digits.takeWhile isHexDigit, digits.dropWhile isHexDigit, ?_, ?_, ?_⟩
    · simp
    · rw [numberLength_of_hex hhex]
      rfl
    · intro rest' hrest'
      have htake := hrest'.takeWhile isHexDigit_delimiter hall
      have hhex' : startsHex ('0' :: x :: (digits.takeWhile isHexDigit ++ rest')) := by
        simp only [startsHex, htake, hletter, hdigits]
        rfl
      rw [cons_append, cons_append, numberLength_of_hex hhex', htake]
      rfl
  · -- Without its letter the numeral cannot become hexadecimal when the text after it changes.
    have hdecimal := numberLength_of_decimal (by simpa using hhex)
    rw [hdecimal] at h ⊢
    unfold decimalLength at h ⊢
    cases hread : readNumeral cs with
    | none => simp [hread] at h
    | some read =>
      obtain ⟨n, rest⟩ := read
      rw [hread] at h
      obtain ⟨pre, rfl, hx, hX, hdelim⟩ := readNumeral_delimited hread
      have hpre : pre ≠ [] := by
        rintro rfl
        simp at h
      refine ⟨pre, rest, rfl, by simp, fun rest' hrest' => ?_⟩
      rw [numberLength_of_decimal (startsHex_of_decimal hpre hx hX hrest'), decimalLength,
        hdelim rest' hrest']
      simp

end Patchbay.Scan
