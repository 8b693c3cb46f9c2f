import Mathlib.Data.Bool.AllAny
import Patchbay.Token.Scan

/-!
# Tokens that stand before a delimiter

A word is a token without its places. A word is steady if it is cut off as one token of its kind whenever a
delimiter follows: a blank, a parenthesis, a comma, a semicolon or the end of the text. Every token
that was cut off from some text is steady, whatever followed it there. So a text that puts delimiters
between steady words is cut into these words.
-/

open List

namespace Patchbay

/-- A token without its places. -/
structure Word where
  kind : TokenKind
  text : String
deriving DecidableEq, Repr

/-- The word of a token. -/
def Token.word (t : Token) : Word := ⟨t.kind, t.text⟩

variable {c : Char} {text : String} {cs rest : List Char} {words : List Word} {kind : TokenKind} {p : Char → Bool}

namespace Scan

/-! ## Segments of a text -/

/-- The word of a segment, if it is a token. -/
def word? : Segment → Option Word
  | ⟨.token kind, text⟩ => some ⟨kind, String.ofList text⟩
  | _ => none

/-- The text is cut into these words, with blanks and closed comments between them. -/
structure Reads (cs : List Char) (words : List Word) : Prop where
  words : (segments cs).filterMap word? = words
  clean : ∀ s ∈ segments cs, segmentIssue s = none

theorem drop_length_takeWhile (p : Char → Bool) (cs : List Char) :
    cs.drop (cs.takeWhile p).length = cs.dropWhile p :=
  calc cs.drop (cs.takeWhile p).length
      = (cs.takeWhile p ++ cs.dropWhile p).drop (cs.takeWhile p).length := by
        rw [takeWhile_append_dropWhile]
    _ = cs.dropWhile p := drop_left

theorem segmentsFrom_eq_drop (skip : Nat) (cs : List Char) : segmentsFrom skip cs = segments (cs.drop skip) := by
  induction cs generalizing skip with
  | nil =>
    cases skip with
    | zero => rfl
    | succ skip => rfl
  | cons c cs ih =>
    cases skip with
    | zero => rfl
    | succ skip => exact ih skip

theorem segments_cons {kind : Lexeme} {length : Nat} (h : lexeme c cs = (kind, length)) :
    segments (c :: cs) = ⟨kind, (c :: cs).take length⟩ :: segments (cs.drop (length - 1)) := by
  rw [segments, segmentsFrom, h]
  dsimp only
  rw [segmentsFrom_eq_drop]

theorem word_tokensFrom (p : Position) (segs : List Segment) :
    (tokensFrom p segs).map Token.word = segs.filterMap word? := by
  induction segs generalizing p with
  | nil => rfl
  | cons s segs ih =>
    obtain ⟨kind, text⟩ := s
    cases kind with
    | token kind => simp [tokensFrom, word?, Token.word, ih]
    | _ => simp [tokensFrom, filterMap_cons, word?, ih]

theorem findingsFrom_eq_nil_iff (p : Position) (segs : List Segment) :
    findingsFrom p segs = [] ↔ ∀ s ∈ segs, segmentIssue s = none := by
  induction segs generalizing p with
  | nil => simp [findingsFrom]
  | cons s segs ih =>
    rw [findingsFrom, forall_mem_cons]
    cases hissue : segmentIssue s with
    | none => simp [ih]
    | some issue => simp

/-- A text that is cut into words gives tokens of these words and no finding. -/
theorem Reads.scan (h : Reads text.toList words) : (scan text).1.map Token.word = words ∧ (scan text).2 = [] :=
  ⟨(word_tokensFrom _ _).trans h.words, (findingsFrom_eq_nil_iff _ _).mpr h.clean⟩

/-! ## Delimiters -/

/-- Characters that end every word. -/
def isDelimiter (c : Char) : Bool := [' ', '\n', '(', ')', ',', ';'].contains c

/-- A delimiter comes next, or nothing. -/
def Delimits (rest : List Char) : Prop := ∀ c ∈ rest.head?, isDelimiter c = true

theorem mem_of_isDelimiter (h : isDelimiter c) : c ∈ [' ', '\n', '(', ')', ',', ';'] := by
  simpa [isDelimiter] using h

theorem delimits_nil : Delimits [] := by
  intro c hc
  simp at hc

theorem delimits_cons (h : isDelimiter c) (cs : List Char) : Delimits (c :: cs) := by
  intro d hd
  obtain rfl : c = d := by simpa using hd
  exact h

/-- No run of characters that excludes the delimiters goes into what a delimiter starts. -/
theorem Delimits.takeWhile (h : Delimits rest) (hp : ∀ c ∈ [' ', '\n', '(', ')', ',', ';'], p c = false)
    (hcs : ∀ c ∈ cs, p c) : (cs ++ rest).takeWhile p = cs := by
  rw [takeWhile_append_of_pos hcs]
  cases rest with
  | nil => simp
  | cons c rest =>
    have hc := hp c (mem_of_isDelimiter (h c rfl))
    rw [takeWhile_cons_of_neg (by simp [hc]), append_nil]

theorem Delimits.dropWhile (h : Delimits rest) (hp : ∀ c ∈ [' ', '\n', '(', ')', ',', ';'], p c = false)
    (hcs : ∀ c ∈ cs, p c) : (cs ++ rest).dropWhile p = rest := by
  rw [dropWhile_append_of_pos hcs]
  cases rest with
  | nil => rfl
  | cons c rest =>
    have hc := hp c (mem_of_isDelimiter (h c rfl))
    rw [dropWhile_cons_of_neg (by simp [hc])]

/-! ## Steady words -/

/-- The text is one token of a kind whenever a delimiter follows. -/
def Steady (kind : TokenKind) (text : List Char) : Prop :=
  ∃ c cs, text = c :: cs ∧ ∀ rest, Delimits rest → lexeme c (cs ++ rest) = (.token kind, cs.length + 1)

theorem Steady.ne_nil {text : List Char} (h : Steady kind text) : text ≠ [] := by
  obtain ⟨c, cs, rfl, -⟩ := h
  simp

theorem Steady.ne_empty (h : Steady kind text.toList) : text ≠ "" := by
  rintro rfl
  exact h.ne_nil rfl

/-- A token at the start of a text is the first word. -/
theorem Reads.token {kind : TokenKind} {c : Char} {cs rest : List Char} {words : List Word}
    (h : lexeme c (cs ++ rest) = (.token kind, cs.length + 1)) (hrest : Reads rest words) :
    Reads (c :: cs ++ rest) (⟨kind, String.ofList (c :: cs)⟩ :: words) := by
  have hsegments : segments (c :: cs ++ rest) = ⟨.token kind, c :: cs⟩ :: segments rest := by
    rw [cons_append, segments_cons h]
    simp
  constructor
  · rw [hsegments, filterMap_cons, hrest.words]
    rfl
  · rw [hsegments]
    exact forall_mem_cons.mpr ⟨rfl, hrest.clean⟩

theorem Reads.steady {text : List Char} (h : Steady kind text) (hdelim : Delimits rest) (hrest : Reads rest words) :
    Reads (text ++ rest) (⟨kind, String.ofList text⟩ :: words) := by
  obtain ⟨c, cs, rfl, hlex⟩ := h
  exact .token (hlex rest hdelim) hrest

theorem Reads.nil : Reads [] [] := ⟨rfl, by simp [segments, segmentsFrom]⟩

/-! ## Blanks and punctuation -/

/-- A character that is no operator starts none of two characters either. -/
theorem operatorLength_eq_zero (h : isMonograph c = false) (cs : List Char) : operatorLength (c :: cs) = 0 := by
  have hdigraph (b : Char) : isDigraph c b = false := by
    have hfirst : c ∉ ['<', ':', '>', '=', '!'] := by
      intro hmem
      have hall : ∀ x ∈ ['<', ':', '>', '=', '!'], isMonograph x :=
        all_iff_forall_prop.mp (by decide)
      exact absurd (hall c hmem) (by simp [h])
    simp only [mem_cons, not_mem_nil, or_false, not_or] at hfirst
    simp [isDigraph, hfirst]
  cases cs with
  | nil => simp [operatorLength, h]
  | cons b cs => simp [operatorLength, h, hdigraph b]

theorem operatorLength_pos (h : isMonograph c) (cs : List Char) : 0 < operatorLength (c :: cs) := by
  cases cs with
  | nil => simp [operatorLength, h]
  | cons b cs =>
    rw [operatorLength, if_pos h]
    split
    · omega
    · omega

/-- A character that is no operator starts no operator and no comment. -/
theorem lexeme_of_not_monograph (h : isMonograph c = false) (cs : List Char) : lexeme c cs = plainLexeme c cs := by
  have hslash : c ≠ '/' := by
    rintro rfl
    exact absurd h (by decide)
  unfold lexeme
  split
  · exact absurd rfl hslash
  · exact absurd rfl hslash
  · simp [operatorLength_eq_zero h]

end Scan

end Patchbay
