import Patchbay.Proofs.Advice.Choice

/-!
# Words and numbers in messages

Rules of the advice table tell messages apart by words, and messages quote texts of the program. A word without quotes
reaches into no quoted text: it stands within one of the texts between the quotes. A pattern is found where its first
word stands first. Numbers are written with few characters, and no word that a rule looks for consists of them.
-/

open List

namespace Patchbay

/-! ## Words -/

/-- A text that can stand between quotes. -/
structure Quotable (text : String) : Prop where
  ne_empty : text ≠ ""
  unquoted : '\'' ∉ text.toList

variable {word xs ys run rest : List Char} {c : Char}

/-- A word does not reach across a character that it does not have. -/
theorem infix_append_cons_iff (hc : c ∉ word) : word <:+: xs ++ c :: ys ↔ word <:+: xs ∨ word <:+: ys := by
  constructor
  · intro h
    rcases infix_append_iff.mp h with h | h | ⟨front, back, rfl, hfront, hback⟩
    · exact .inl h
    · rcases infix_cons_iff.mp h with h | h
      · rcases prefix_cons_iff.mp h with rfl | ⟨tail, rfl, -⟩
        · exact .inl nil_infix
        · simp at hc
      · exact .inr h
    · rcases prefix_cons_iff.mp hback with rfl | ⟨tail, rfl, -⟩
      · rw [append_nil]
        exact .inl hfront.isInfix
      · simp at hc
  · rintro (h | h)
    · exact h.trans (prefix_append _ _).isInfix
    · exact h.trans ((suffix_cons _ _).trans (suffix_append _ _)).isInfix

/-- A word with a character that does not stand outside the quotes can only stand between them. -/
theorem infix_quoted_iff {shown : List Char} (hquote : '\'' ∉ word) (hc : c ∈ word) (hxs : c ∉ xs) (hys : c ∉ ys) :
    word <:+: xs ++ '\'' :: (shown ++ '\'' :: ys) ↔ word <:+: shown := by
  have hnot {zs : List Char} (h : c ∉ zs) : ¬ word <:+: zs := fun hword => h (hword.subset hc)
  rw [infix_append_cons_iff hquote, infix_append_cons_iff hquote]
  simp only [hnot hxs, hnot hys, false_or, or_false]

namespace Pattern

variable {pieces : List PatternPiece} {name text message : String}

/-- A run is what stands before the next stop. -/
theorem matchPieces_upTo (hrun : run ≠ []) (hc : c ∉ run) (rest : List Char) :
    matchPieces (.upTo name c :: pieces) (run ++ c :: rest)
      = (matchPieces pieces (c :: rest)).map ((name, String.ofList run) :: ·) := by
  have hall : ∀ d ∈ run, decide (d ≠ c) := by
    intro d hd
    have hne : d ≠ c := fun heq => hc (heq ▸ hd)
    simpa using hne
  rw [matchPieces, takeWhile_append_of_pos hall, dropWhile_append_of_pos hall, takeWhile_cons_of_neg (by simp),
    dropWhile_cons_of_neg (by simp), append_nil]
  cases run with
  | nil => exact absurd rfl hrun
  | cons d run => rfl

/-- A quoted text at the start of a message is found. -/
theorem find?_quotedRun {before after shown : String} (hshown : Quotable shown)
    (h : (before ++ "'" ++ shown ++ "'" ++ after).toList <+: message.toList) :
    ((ofPieces (quotedRun before name after)).find? message).isSome := by
  obtain ⟨rest, hrest⟩ := h
  have hmessage : message.toList = (before ++ "'").toList ++ (shown.toList ++ '\'' :: (after.toList ++ rest)) := by
    rw [← hrest]
    simp
  have hafter : '\'' :: (after.toList ++ rest) = ("'" ++ after).toList ++ rest := by simp
  have hhere : (ofPieces (quotedRun before name after)).matchHere message.toList = some [(name, shown)] := by
    rw [matchHere, ofPieces, findSome?_singleton, hmessage, quotedRun, matchPieces_exact_append,
      matchPieces_upTo (by simpa using hshown.ne_empty) hshown.unquoted, hafter, matchPieces_exact_append, matchPieces]
    simp
  exact Option.isSome_iff_exists.mpr ⟨_, searchFrom_of_matchHere hhere⟩

/-- A word at the start of a message is found. -/
theorem find?_of_start {p : Pattern} (hword : [.exact text] ∈ p.alternatives) (h : text.toList <+: message.toList) :
    (p.find? message).isSome := by
  have hhere : (p.matchHere message.toList).isSome :=
    findSome?_isSome_iff.mpr ⟨_, hword, (matchPieces_exact_isSome_iff text _).mpr h⟩
  unfold find?
  split
  · exact hhere
  · exact (searchFrom_isSome_iff _ _).mpr ⟨_, suffix_refl _, hhere⟩

/-- Where the first word of a pattern does not stand, the pattern is not found. -/
theorem searchFrom_append {p : Pattern} (h : ∀ part, part <:+ xs → part ≠ [] → p.matchHere (part ++ ys) = none) :
    p.searchFrom (xs ++ ys) = p.searchFrom ys := by
  induction xs with
  | nil => rfl
  | cons x xs ih =>
    have hhere := h (x :: xs) (suffix_refl _) (cons_ne_nil _ _)
    rw [cons_append] at hhere ⊢
    rw [searchFrom, hhere]
    exact ih fun part hpart => h part (hpart.trans (suffix_cons _ _))

/-- A word that does not overlap with itself is found where it stands first. -/
theorem searchFrom_exact (hborder : ∀ k < text.length, 0 < k → ¬ text.toList.drop k <+: text.toList)
    (hfirst : ¬ text.toList <:+: xs) :
    (ofPieces (.exact text :: pieces)).searchFrom (xs ++ (text.toList ++ rest))
      = (ofPieces (.exact text :: pieces)).searchFrom (text.toList ++ rest) := by
  apply searchFrom_append
  intro part hpart hne
  rw [matchHere, ofPieces, findSome?_singleton, Option.eq_none_iff_forall_ne_some]
  intro named hnamed
  obtain ⟨rest', heq, -⟩ := matchPieces_exact.mp hnamed
  rcases append_eq_append_iff.mp heq with ⟨more, hmore, -⟩ | ⟨more, hmore, hrest⟩
  · exact hfirst ((hmore ▸ (prefix_append _ _).isInfix).trans hpart.isInfix)
  · have hsame : more <+: text.toList :=
      prefix_of_prefix_length_le (hrest ▸ prefix_append more rest') (prefix_append _ _) (by simp [hmore])
    have hlength : text.length = part.length + more.length := by
      rw [← String.length_toList, hmore, length_append]
    have hdrop : text.toList.drop part.length = more := by rw [hmore, drop_left]
    rcases Nat.eq_zero_or_pos more.length with hzero | hpos
    · rw [length_eq_zero_iff.mp hzero, append_nil] at hmore
      exact hfirst (hmore ▸ hpart.isInfix)
    · exact hborder part.length (by omega) (length_pos_iff.mpr hne) (hdrop ▸ hsame)

end Pattern

/-! ## Numbers -/

/-- Whether a character can stand in a number: digits, signs, a point, an exponent, and the letters of what is not
finite. -/
def isNumeric (c : Char) : Bool := c.isDigit || ['-', '+', '.', 'e', 'i', 'n', 'f', 'a'].contains c

/-- The text could be a number. -/
structure Numeric (cs : List Char) : Prop where
  ne_nil : cs ≠ []
  all : ∀ c ∈ cs, isNumeric c

namespace Numeric

variable {cs : List Char}

theorem cons (hc : isNumeric c) (h : ∀ c ∈ cs, isNumeric c) : Numeric (c :: cs) :=
  ⟨cons_ne_nil _ _, forall_mem_cons.mpr ⟨hc, h⟩⟩

theorem digitsOf (n : Nat) : Numeric (Number.digitsOf n) := by
  rw [show Number.digitsOf n = Nat.toDigits 10 n from String.toList_ofList]
  refine ⟨Nat.toDigits_ne_nil, ?_⟩
  intro c hc
  simp [isNumeric, Nat.isDigit_of_mem_toDigits (by omega) (by omega) hc]

theorem exponentText (exponent : Int) : Numeric (Number.exponentText exponent) := by
  have hdigits := (digitsOf exponent.natAbs).all
  refine cons (by split <;> decide) ?_
  split
  · exact (cons (by decide) hdigits).all
  · exact hdigits

theorem append {ds : List Char} (h : Numeric cs) (hds : ∀ c ∈ ds, isNumeric c) : Numeric (cs ++ ds) :=
  ⟨append_ne_nil_of_left_ne_nil h.ne_nil ds, forall_mem_append.mpr ⟨h.all, hds⟩⟩

/-- Significant digits are laid out with zeros, a point and an exponent. -/
theorem write (layout : Number.Layout) (value : Number.Significant) : Numeric (layout.write value) := by
  have hzeros (n : Nat) : ∀ c ∈ replicate n '0', isNumeric c := fun c hc => eq_of_mem_replicate hc ▸ by decide
  have hpoint {ds : List Char} (h : ∀ c ∈ ds, isNumeric c) : ∀ c ∈ '.' :: ds, isNumeric c := (cons (by decide) h).all
  unfold Number.Layout.write
  extract_lets digits exponent whole fraction padded
  have hdigits : Numeric digits := by
    unfold digits
    split
    · exact cons (by decide) (forall_mem_nil _)
    · rename_i hne
      refine ⟨hne, fun c hc => ?_⟩
      exact (digitsOf _).all c (mem_reverse.mp ((dropWhile_sublist _).mem (mem_reverse.mp hc)))
  clear_value digits
  split
  · split
    · exact ((cons (by decide) (hpoint (forall_mem_nil _))).append (hzeros _)).append hdigits.all
    · have hpadded : Numeric padded := by
        refine .append ⟨?_, fun c hc => hdigits.all c (mem_of_mem_take hc)⟩ (hzeros _)
        exact mt take_eq_nil_iff.mp (not_or.mpr ⟨Nat.succ_ne_zero _, hdigits.ne_nil⟩)
      split
      · split
        · exact hpadded.append (hpoint (cons (by decide) (forall_mem_nil _)).all)
        · exact hpadded
      · exact hpadded.append (hpoint fun c hc => hdigits.all c (mem_of_mem_drop hc))
  · cases digits with
    | nil => exact absurd rfl hdigits.ne_nil
    | cons d ds =>
      obtain ⟨hd, hds⟩ := forall_mem_cons.mp hdigits.all
      refine append ?_ (cons (by decide) (exponentText _).all).all
      split
      · exact cons hd (forall_mem_nil _)
      · exact cons hd (hpoint hds)

end Numeric

theorem numeric_amount (value : Binary64) : Numeric (amount value).toList := by
  unfold amount
  split
  · rename_i n _
    cases n with
    | ofNat n => exact .digitsOf n
    | negSucc n =>
      rw [show toString (Int.negSucc n) = "-" ++ toString (n + 1) from rfl, String.toList_append]
      exact .cons (by decide) (Numeric.digitsOf (n + 1)).all
  · cases value with
    | finite negative units =>
      have hwrite : Numeric (if units = 0 then Number.Layout.write ⟨6, false⟩ ⟨0, 0⟩
          else Number.Layout.write ⟨6, false⟩ (Number.roundSignificant 6 units)) := by
        split
        · exact .write _ _
        · exact .write _ _
      unfold Number.general Number.signedText
      rw [String.toList_ofList]
      split
      · exact .cons (by decide) hwrite.all
      · exact hwrite
    | infinite negative => cases negative <;> exact ⟨by decide, all_eq_true.mp (by decide)⟩
    | nan => exact ⟨by decide, all_eq_true.mp (by decide)⟩

theorem not_mem_amount (hc : isNumeric c = false) (value : Binary64) : c ∉ (amount value).toList := by
  intro hmem
  exact Bool.false_ne_true (hc.symm.trans ((numeric_amount value).all c hmem))

end Patchbay
