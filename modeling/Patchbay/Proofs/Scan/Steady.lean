import Patchbay.Proofs.Scan.Numerals

/-!
# Every token is steady

What was cut off from a text as a token is cut off as the same token when a delimiter follows it instead of
what stood there. The classes of tokens are gone through one by one; a string needs no delimiter, since its
closing quote ends it.
-/

open List

namespace Patchbay.Scan

/-! ## Names -/

variable {n length : Nat} {c : Char} {cs rest : List Char} {words : List Word} {kind : TokenKind}

theorem ne_point_of_isNamePart (h : isNamePart c) : c ≠ '.' := by
  rintro rfl
  exact absurd h (by decide)

theorem nameLength_part (h : isNamePart c) (cs : List Char) : nameLength (c :: cs) = nameLength cs + 1 := by
  rw [nameLength]
  · rw [if_pos h]
  · intro d ds hc _
    exact ne_point_of_isNamePart h hc

theorem nameLength_of_delimits (h : Delimits rest) : nameLength rest = 0 := by
  cases rest with
  | nil => rfl
  | cons c rest =>
    have hpart : ∀ d ∈ [' ', '\n', '(', ')', ',', ';'], isNamePart d = false :=
      all_iff_forall_prop.mp (by decide)
    rw [nameLength]
    · rw [if_neg (by simp [hpart c (mem_of_isDelimiter (h c rfl))])]
    · intro d ds hc _
      exact delimiter_ne h (by decide) c rfl hc

/-- A name is the same before a delimiter. -/
theorem nameLength_delimited (cs : List Char) :
    nameLength cs ≤ cs.length ∧
      ∀ rest, Delimits rest → nameLength (cs.take (nameLength cs) ++ rest) = nameLength cs := by
  fun_induction nameLength cs with
  | case1 c cs hstart ih =>
    refine ⟨by simp; omega, fun rest hrest => ?_⟩
    have htake : ('.' :: c :: cs).take (nameLength cs + 2) = '.' :: c :: cs.take (nameLength cs) := rfl
    rw [htake, cons_append, cons_append, nameLength, if_pos hstart, ih.2 rest hrest]
  | case2 c cs hstart => exact ⟨by simp, fun rest hrest => by simpa using nameLength_of_delimits hrest⟩
  | case3 c cs hshape hpart ih =>
    refine ⟨by simpa using ih.1, fun rest hrest => ?_⟩
    rw [take_succ_cons, cons_append, nameLength_part hpart, ih.2 rest hrest]
  | case4 c cs hshape hpart =>
    exact ⟨by simp, fun rest hrest => by simpa using nameLength_of_delimits hrest⟩
  | case5 => exact ⟨by simp, fun rest hrest => by simpa using nameLength_of_delimits hrest⟩

/-! ## Strings -/

theorem stringLength_plain (hquote : c ≠ '"') (hback : c ≠ '\\') (cs : List Char) :
    stringLength (c :: cs) = (stringLength cs).map (· + 1) := by
  rw [stringLength]
  · exact hquote
  · intro d ds hc _
    exact hback hc
  · intro hc _
    exact hback hc

/-- A string ends at its closing quote, whatever follows. -/
theorem stringLength_closed (h : stringLength cs = some length) :
    length ≤ cs.length ∧ ∀ rest, stringLength (cs.take length ++ rest) = some length := by
  fun_induction stringLength cs generalizing length with
  | case1 => simp at h
  | case2 cs =>
    obtain rfl : 1 = length := by simpa using h
    exact ⟨by simp, fun rest => by simp [stringLength]⟩
  | case3 => simp at h
  | case4 c cs hline ih =>
    obtain ⟨n, hn, rfl⟩ := Option.map_eq_some_iff.mp h
    obtain ⟨hle, hread⟩ := ih hn
    refine ⟨by simp; omega, fun rest => ?_⟩
    have htake : ('\\' :: c :: cs).take (n + 2) = '\\' :: c :: cs.take n := rfl
    rw [htake, cons_append, cons_append, stringLength, if_neg hline, hread rest]
    rfl
  | case5 => simp at h
  | case6 c cs hquote hescape hlast ih =>
    have hback : c ≠ '\\' := by
      rintro rfl
      cases cs with
      | nil => exact hlast rfl rfl
      | cons d ds => exact hescape d ds rfl rfl
    obtain ⟨n, hn, rfl⟩ := Option.map_eq_some_iff.mp h
    obtain ⟨hle, hread⟩ := ih hn
    refine ⟨by simpa using hle, fun rest => ?_⟩
    rw [take_succ_cons, cons_append, stringLength_plain hquote hback, hread rest]
    rfl

/-! ## Operators -/

theorem operatorLength_delimited (h : 0 < operatorLength (c :: cs)) :
    operatorLength (c :: cs) ≤ cs.length + 1 ∧
      ∀ rest, Delimits rest → operatorLength ((c :: cs).take (operatorLength (c :: cs)) ++ rest)
        = operatorLength (c :: cs) := by
  have hdelim (a b : Char) (hb : isDelimiter b) : isDigraph a b = false := by
    have hmem := mem_of_isDelimiter hb
    simp only [mem_cons, not_mem_nil, or_false] at hmem
    rcases hmem with rfl | rfl | rfl | rfl | rfl | rfl <;> simp [isDigraph]
  have hmono_of (h : 0 < if isMonograph c then 1 else 0) : isMonograph c := by
    split at h
    · assumption
    · simp at h
  have hone (hmono : isMonograph c) (rest : List Char) (hrest : Delimits rest) :
      operatorLength (c :: rest) = 1 := by
    cases rest with
    | nil => simp [operatorLength, hmono]
    | cons b rest => simp [operatorLength, hmono, hdelim c b (hrest b rfl)]
  cases cs with
  | nil =>
    have hmono : isMonograph c := hmono_of (by simpa [operatorLength] using h)
    have hlen : operatorLength [c] = 1 := hone hmono [] delimits_nil
    rw [hlen]
    exact ⟨by simp, fun rest hrest => hone hmono rest hrest⟩
  | cons b cs =>
    by_cases hdigraph : isDigraph c b
    · have hlen (ds : List Char) : operatorLength (c :: b :: ds) = 2 := by
        simp [operatorLength, hdigraph]
      rw [hlen]
      exact ⟨by simp, fun rest _ => hlen rest⟩
    · have hmono : isMonograph c := hmono_of (by simpa [operatorLength, hdigraph] using h)
      have hlen : operatorLength (c :: b :: cs) = 1 := by
        simp [operatorLength, hdigraph, hmono]
      rw [hlen]
      exact ⟨by simp, fun rest hrest => hone hmono rest hrest⟩

/-- No comment starts here. -/
def StartsNoComment (c : Char) (cs : List Char) : Prop :=
  c = '/' → ∀ d ∈ cs.head?, d ≠ '/' ∧ d ≠ '*'

theorem lexeme_of_operator (hcomment : StartsNoComment c cs) (h : 0 < operatorLength (c :: cs)) :
    lexeme c cs = (.token .operator, operatorLength (c :: cs)) := by
  unfold lexeme
  split
  · exact absurd rfl (hcomment rfl '/' rfl).1
  · exact absurd rfl (hcomment rfl '*' rfl).2
  · dsimp only
    rw [if_pos h]

/-- A token is an operator or a plain one; in neither case does a comment start. -/
theorem lexeme_cases (h : lexeme c cs = (.token kind, n)) :
    (StartsNoComment c cs ∧ 0 < operatorLength (c :: cs) ∧ kind = .operator ∧
        n = operatorLength (c :: cs)) ∨
      (isMonograph c = false ∧ plainLexeme c cs = (.token kind, n)) := by
  have hcomment : StartsNoComment c cs := by
    rintro rfl d hd
    obtain ⟨rest, rfl⟩ := head?_eq_some_iff.mp hd
    constructor
    · rintro rfl
      simp [lexeme] at h
    · rintro rfl
      simp [lexeme] at h
  by_cases hlen : 0 < operatorLength (c :: cs)
  · rw [lexeme_of_operator hcomment hlen] at h
    simp only [Prod.mk.injEq, Lexeme.token.injEq] at h
    exact Or.inl ⟨hcomment, hlen, h.1.symm, h.2.symm⟩
  · have hmono : isMonograph c = false := by
      rw [Bool.eq_false_iff]
      intro hmono
      exact hlen (operatorLength_pos hmono cs)
    rw [lexeme_of_not_monograph hmono] at h
    exact Or.inr ⟨hmono, h⟩

/-! ## Punctuation and strings -/

theorem lexeme_of_mark (h : isPunctuation c) (cs : List Char) : lexeme c cs = (.token .punctuation, 1) := by
  have hclass : ∀ d ∈ ['(', ')', '\x7b', '\x7d', ';'], isMonograph d = false ∧ isNameStart d = false ∧
      Text.isDigit d = false ∧ d ≠ '.' ∧ d ≠ '"' := all_iff_forall_prop.mp (by decide)
  have hmem : c ∈ ['(', ')', '\x7b', '\x7d', ';'] := by simpa [isPunctuation] using h
  obtain ⟨hmono, hname, hdigit, hpoint, hquote⟩ := hclass c hmem
  rw [lexeme_of_not_monograph hmono]
  unfold plainLexeme
  rw [if_neg (by simp [hname]), if_neg (by simp [numberLength_eq_zero hdigit hpoint]), if_neg hquote,
    if_pos h]

theorem plainLexeme_quote (h : stringLength cs = some length) : plainLexeme '"' cs = (.token .string, length + 1) := by
  have hnumber : numberLength ('"' :: cs) = 0 := numberLength_eq_zero (by decide) (by decide) cs
  unfold plainLexeme
  rw [if_neg (by decide), if_neg (by simp [hnumber]), if_pos rfl, h]

/-! ## All tokens -/

theorem steady_of_plainLexeme (hmono : isMonograph c = false) (h : plainLexeme c cs = (.token kind, n)) :
    Steady kind ((c :: cs).take n) := by
  unfold plainLexeme at h
  split at h
  · -- a name or a keyword
    rename_i hstart
    obtain ⟨hle, hread⟩ := nameLength_delimited cs
    simp only [Prod.mk.injEq, Lexeme.token.injEq] at h
    obtain ⟨hkind, rfl⟩ := h
    refine ⟨c, cs.take (nameLength cs), rfl, fun rest hrest => ?_⟩
    rw [lexeme_of_not_monograph hmono]
    unfold plainLexeme
    rw [if_pos hstart]
    dsimp only
    rw [hread rest hrest, length_take_of_le hle, ← hkind, take_succ_cons, take_succ_cons,
      take_append_of_le_length (by simp [hle]), take_take, Nat.min_self]
  · rename_i hstart
    split at h
    · -- a number
      rename_i hnumber
      obtain ⟨pre, left, hpre, hlen, hread⟩ := numberLength_delimited hnumber
      obtain ⟨rfl, rfl⟩ := h
      obtain ⟨d, ds, rfl⟩ : ∃ d ds, pre = d :: ds := by
        cases pre with
        | nil =>
          simp at hlen
          omega
        | cons d ds => exact ⟨d, ds, rfl⟩
      obtain rfl : c = d := (List.cons.inj hpre).1
      refine ⟨c, ds, ?_, fun rest hrest => ?_⟩
      · rw [← hlen, hpre, take_left]
      · have hread' : numberLength (c :: (ds ++ rest)) = ds.length + 1 := hread rest hrest
        rw [lexeme_of_not_monograph hmono]
        unfold plainLexeme
        rw [if_neg hstart, hread', if_pos (by omega)]
    · split at h
      · -- a string
        rename_i hquote
        subst hquote
        cases hlen : stringLength cs with
        | none => simp [hlen] at h
        | some length =>
          obtain ⟨hle, hread⟩ := stringLength_closed hlen
          simp only [hlen, Prod.mk.injEq, Lexeme.token.injEq] at h
          obtain ⟨rfl, rfl⟩ := h
          refine ⟨'"', cs.take length, rfl, fun rest _ => ?_⟩
          rw [lexeme_of_not_monograph hmono, length_take_of_le hle]
          exact plainLexeme_quote (hread rest)
      · split at h
        · -- a punctuation mark
          rename_i hmark
          obtain ⟨rfl, rfl⟩ := h
          exact ⟨c, [], rfl, fun rest _ => lexeme_of_mark hmark rest⟩
        · -- blanks and bad characters are no tokens
          split at h
          · simp at h
          · simp at h

/-- A token is the same before a delimiter. -/
theorem steady_of_lexeme (h : lexeme c cs = (.token kind, n)) : Steady kind ((c :: cs).take n) := by
  rcases lexeme_cases h with ⟨hcomment, hpos, rfl, rfl⟩ | ⟨hmono, hplain⟩
  · obtain ⟨hle, hread⟩ := operatorLength_delimited hpos
    obtain ⟨k, hk⟩ : ∃ k, operatorLength (c :: cs) = k + 1 := ⟨operatorLength (c :: cs) - 1, by omega⟩
    rw [hk] at hread hle ⊢
    refine ⟨c, cs.take k, rfl, fun rest hrest => ?_⟩
    have hlen : operatorLength (c :: (cs.take k ++ rest)) = k + 1 := hread rest hrest
    rw [lexeme_of_operator ?_ (by omega), hlen, length_take_of_le (by omega)]
    -- A slash alone is not made a comment by a delimiter, nor one with more behind it by what follows.
    intro hc d hd
    cases k with
    | zero => exact ⟨delimiter_ne hrest (by decide) d hd, delimiter_ne hrest (by decide) d hd⟩
    | succ k =>
      cases cs with
      | nil => simp at hle
      | cons b cs => exact hcomment hc d hd
  · exact steady_of_plainLexeme hmono hplain

/-- A token that is a whole text is steady. -/
theorem steady_of_alone (h : lexeme c cs = (.token kind, cs.length + 1)) : Steady kind (c :: cs) := by
  have hsteady := steady_of_lexeme h
  rwa [take_succ_cons, take_length] at hsteady

theorem exists_lexeme_of_mem {s : Segment} {skip : Nat} (h : s ∈ segmentsFrom skip cs) :
    ∃ c ds, s = ⟨(lexeme c ds).1, (c :: ds).take (lexeme c ds).2⟩ := by
  induction cs generalizing skip with
  | nil => simp [segmentsFrom] at h
  | cons c cs ih =>
    cases skip with
    | zero =>
      rw [segmentsFrom] at h
      rcases mem_cons.mp h with rfl | h
      · exact ⟨c, cs, rfl⟩
      · exact ih h
    | succ skip => exact ih h

/-- Every token of a text is steady. -/
theorem steady_of_mem_scan {text : String} {t : Token} (h : t ∈ (scan text).1) :
    Steady t.kind t.text.toList := by
  have hword : t.word ∈ (segments text.toList).filterMap word? := by
    rw [← word_tokensFrom .start]
    exact mem_map_of_mem h
  obtain ⟨⟨kind, w⟩, hmem, hsome⟩ := mem_filterMap.mp hword
  cases kind with
  | token kind =>
    have heq : kind = t.kind ∧ String.ofList w = t.text := by
      simpa [word?, Token.word] using hsome
    obtain ⟨c, ds, hs⟩ := exists_lexeme_of_mem hmem
    have hlex : lexeme c ds = (.token kind, (lexeme c ds).2) := by
      rw [Segment.mk.injEq] at hs
      rw [hs.1]
    have hw : w = (c :: ds).take (lexeme c ds).2 := (Segment.mk.inj hs).2
    rw [← heq.1, ← heq.2, String.toList_ofList, hw]
    exact steady_of_lexeme hlex
  | _ => simp [word?] at hsome

/-! ## Words with blanks and marks between them -/

theorem lexeme_of_gap (h : isGap c) (cs : List Char) :
    lexeme c cs = (.blank, (cs.takeWhile isGap).length + 1) := by
  have hclass : ∀ d ∈ [' ', '\t', '\x0c', '\r', '\n'], isMonograph d = false ∧ isNameStart d = false ∧
      Text.isDigit d = false ∧ d ≠ '.' ∧ d ≠ '"' ∧ isPunctuation d = false :=
    all_iff_forall_prop.mp (by decide)
  have hmem : c ∈ [' ', '\t', '\x0c', '\r', '\n'] := by simpa [isGap, or_assoc] using h
  obtain ⟨hmono, hname, hdigit, hpoint, hquote, hmark⟩ := hclass c hmem
  rw [lexeme_of_not_monograph hmono]
  unfold plainLexeme
  rw [if_neg (by simp [hname]), if_neg (by simp [numberLength_eq_zero hdigit hpoint]), if_neg hquote,
    if_neg (by simp [hmark]), if_pos h]

theorem segments_of_gap (h : isGap c) (cs : List Char) :
    ∃ text, segments (c :: cs) = ⟨.blank, text⟩ :: segments (cs.dropWhile isGap) := by
  rw [segments_cons (lexeme_of_gap h cs), Nat.add_sub_cancel, drop_length_takeWhile]
  exact ⟨_, rfl⟩

theorem reads_cons_blank {text : List Char} (h : segments cs = ⟨.blank, text⟩ :: segments rest) :
    Reads cs words ↔ Reads rest words := by
  constructor
  · intro hcs
    refine ⟨?_, fun s hs => hcs.clean s (by simp [h, hs])⟩
    rw [← hcs.words, h]
    rfl
  · intro hrest
    refine ⟨by rw [h]; exact hrest.words, fun s hs => ?_⟩
    rw [h] at hs
    rcases mem_cons.mp hs with rfl | hs
    · rfl
    · exact hrest.clean s hs

theorem Reads.dropWhile (h : Reads cs words) : Reads (cs.dropWhile isGap) words := by
  cases cs with
  | nil => exact h
  | cons c cs =>
    by_cases hc : isGap c
    · obtain ⟨text, hsegments⟩ := segments_of_gap hc cs
      rw [dropWhile_cons_of_pos hc]
      exact (reads_cons_blank hsegments).mp h
    · rwa [dropWhile_cons_of_neg hc]

/-- A blank in front of a text adds no word. -/
theorem Reads.gap (hc : isGap c) (h : Reads cs words) : Reads (c :: cs) words := by
  obtain ⟨text, hsegments⟩ := segments_of_gap hc cs
  exact (reads_cons_blank hsegments).mpr h.dropWhile

theorem Reads.space (h : Reads cs words) : Reads (' ' :: cs) words :=
  h.gap (by decide)

theorem Reads.mark (hc : isPunctuation c) (h : Reads cs words) :
    Reads (c :: cs) (⟨.punctuation, String.ofList [c]⟩ :: words) := by
  have hlex : lexeme c ([] ++ cs) = (.token .punctuation, ([] : List Char).length + 1) := lexeme_of_mark hc cs
  exact .token hlex h

/-- A minus sign is an operator, whatever follows. -/
theorem Reads.minus (h : Reads cs words) : Reads ('-' :: cs) (⟨.operator, "-"⟩ :: words) := by
  have hlen : operatorLength ('-' :: cs) = 1 := by
    cases cs with
    | nil => rfl
    | cons b cs => simp [operatorLength, isDigraph, isMonograph]
  have hlex : lexeme '-' ([] ++ cs) = (.token .operator, ([] : List Char).length + 1) := by
    rw [nil_append, lexeme_of_operator (fun hc => absurd hc (by decide)) (by omega), hlen]
    rfl
  exact .token hlex h

end Patchbay.Scan
