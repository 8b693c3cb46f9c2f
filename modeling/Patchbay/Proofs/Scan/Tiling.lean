import Mathlib.Data.List.Induction
import Patchbay.Proofs.Scan.Terminals

/-!
# Texts are cut without loss

A tile is a stretch of a text between two offsets, with the class that takes it there, or none for a character at which
no class matches. `scan_tiles` says that there is exactly one way to lay tiles from the start of a text to its end, and
that tokens and findings are read off these tiles: nothing is lost, repeated or put in another place.
-/

open List

namespace Patchbay.Scan

open Regex

/-! ## Tiles -/

/-- The kind of token that a word of a class is; none for comments and gaps. -/
def Terminal.kind? : Terminal → List Char → Option TokenKind
  | name, word =>
    some (if ["import", "with", "declare"].contains (String.ofList word) then .keyword else .identifier)
  | number, _ => some .number
  | string, _ => some .string
  | operator, _ => some .operator
  | mark, _ => some .punctuation
  | _, _ => none

/-- What is wrong at the start of a text where a class, or none, takes what stands there: no class is wrong, and so is
a block comment whose end occurs nowhere behind its opening. -/
def issueAt? : Option Terminal → List Char → Option Issue
  | none, c :: _ => some (if c = '"' then .unterminatedString else .unexpectedCharacter c)
  | some .blockComment, text => if Text.includes ['*', '/'] (text.drop 2) then none else some .unterminatedComment
  | _, _ => none

/-- A stretch of a text, and the class that takes it. -/
structure Tile where
  first : Nat
  stop : Nat
  terminal : Option Terminal

namespace Tile

/-- The characters of a tile. -/
def slice (text : List Char) (t : Tile) : List Char := (text.drop t.first).take (t.stop - t.first)

/-- A tile covers what its class takes at its start, or one character at which no class matches. -/
def Fits (text : List Char) (t : Tile) : Prop :=
  t.first < t.stop ∧ t.stop ≤ text.length ∧
    (∀ terminal ∈ t.terminal, terminal.Takes (text.drop t.first) (text.drop t.stop)) ∧
    (t.terminal = none → t.stop = t.first + 1 ∧ ∀ terminal : Terminal, terminal.regex.first (text.drop t.first) = none)

/-- The token of a tile, at the places of its offsets. -/
def token? (text : List Char) (t : Tile) : Option Token :=
  (t.terminal.bind fun terminal => terminal.kind? (t.slice text)).map fun kind =>
    ⟨kind, String.ofList (t.slice text), .ofOffset text t.first, .ofOffset text t.stop⟩

/-- The finding of a tile, at the place of its start. -/
def finding? (text : List Char) (t : Tile) : Option Finding :=
  (issueAt? t.terminal (text.drop t.first)).map fun issue => ⟨.ofOffset text t.first, issue⟩

end Tile

/-- Tiles laid one after another from an offset to the end of a text. -/
inductive Tiles (text : List Char) : Nat → List Tile → Prop
  | done : Tiles text text.length []
  | next {t : Tile} {rest : List Tile} (h : t.Fits text) (hrest : Tiles text t.stop rest) :
    Tiles text t.first (t :: rest)

/-! ## Only one tiling -/

variable {c : Char} {t : Terminal} {cs ds text : List Char}

theorem Terminal.Takes.unique {u : Terminal} {es : List Char} (ht : t.Takes cs ds) (hu : u.Takes cs es) : t = u := by
  by_cases h : t = u
  · exact h
  · rcases Nat.le_total t.priority u.priority with hle | hle
    · have hnone := ht.2 u (fun heq => h heq.symm) hle
      rw [hu.1] at hnone
      simp at hnone
    · have hnone := hu.2 t h hle
      rw [ht.1] at hnone
      simp at hnone

/-- Two tiles that fit at one offset are the same. -/
theorem Tile.Fits.unique {t u : Tile} (ht : t.Fits text) (hu : u.Fits text) (hfirst : t.first = u.first) : t = u := by
  obtain ⟨first, stop, terminal⟩ := t
  obtain ⟨first', stop', terminal'⟩ := u
  obtain rfl : first = first' := hfirst
  obtain ⟨-, hle, htakes, hbad⟩ := ht
  obtain ⟨-, hle', htakes', hbad'⟩ := hu
  cases terminal with
  | none =>
    obtain ⟨hstop, hnone⟩ := hbad rfl
    cases terminal' with
    | none =>
      obtain ⟨hstop', -⟩ := hbad' rfl
      rw [Tile.mk.injEq]
      exact ⟨rfl, by simp_all, rfl⟩
    | some u =>
      have htaken := (htakes' u rfl).1
      rw [hnone u] at htaken
      simp at htaken
  | some t =>
    have htaken := htakes t rfl
    cases terminal' with
    | none =>
      have hfirst := htaken.1
      rw [(hbad' rfl).2 t] at hfirst
      simp at hfirst
    | some u =>
      have htaken' := htakes' u rfl
      obtain rfl : t = u := htaken.unique htaken'
      have hdrop : text.drop stop = text.drop stop' := by
        have heq := htaken.1.symm.trans htaken'.1
        simpa using heq
      have hlength : text.length - stop = text.length - stop' := by
        simpa using congrArg List.length hdrop
      have hstop : stop = stop' := by
        dsimp only at hle hle'
        omega
      rw [hstop]

theorem Tiles.unique {offset : Nat} {tiles tiles' : List Tile} (h : Tiles text offset tiles)
    (h' : Tiles text offset tiles') : tiles = tiles' := by
  induction h generalizing tiles' with
  | done =>
    generalize hoffset : text.length = offset at h'
    cases h' with
    | done => rfl
    | next hfits hrest =>
      have hlt := hfits.1
      have hle := hfits.2.1
      omega
  | @next t rest hfits hrest ih =>
    generalize hoffset : t.first = offset at h'
    cases h' with
    | done =>
      have hlt := hfits.1
      have hle := hfits.2.1
      omega
    | @next u rest' hfits' hrest' =>
      obtain rfl := hfits.unique hfits' hoffset
      rw [ih hrest']

/-! ## What starts with a character -/

/-- The class of what can start with a character; a comment starts like an operator. -/
def startOf (c : Char) : Option Terminal :=
  if isMonograph c then some .operator
  else if isNameStart c then some .name
  else if Text.isDigit c || c == '.' then some .number
  else if c == '"' then some .string
  else if isPunctuation c then some .mark
  else if isGap c then some .gap
  else none

/-- The class with the same first characters. -/
def Terminal.lead : Terminal → Terminal
  | lineComment => operator
  | blockComment => operator
  | t => t

theorem monograph_apart : ∀ c ∈ [':', ',', '~', '+', '-', '*', '/', '%', '@', '!', '\'', '=', '<', '>', '^', '&', '|'],
    Text.isDigit c = false ∧ isNameStart c = false ∧ c ≠ '.' :=
  all_iff_forall_prop.mp (by decide)

theorem not_monograph (h : isNameStart c ∨ Text.isDigit c ∨ c = '.') : isMonograph c = false := by
  rw [Bool.eq_false_iff]
  intro hmono
  obtain ⟨hdigit, hname, hpoint⟩ := monograph_apart c (by simpa [isMonograph] using hmono)
  rcases h with h | h | h
  · simp [hname] at h
  · simp [hdigit] at h
  · exact hpoint h

/-- The digits of all scripts lie apart from the letters. -/
theorem not_nameStart_of_digit (h : Text.isDigit c ∨ c = '.') : isNameStart c = false := by
  rcases h with h | rfl
  · obtain ⟨r, hr, hlow, hhigh⟩ := (Text.inRanges_iff _ _).mp h
    have hranges : ∀ r ∈ Text.digitRanges, r.2 ≤ 0x39 ∨ 0x660 ≤ r.1 := all_iff_forall_prop.mp (by decide)
    rw [Bool.eq_false_iff]
    intro hname
    have hletter : 0x41 ≤ c.toNat ∧ c.toNat ≤ 0x7a := by
      simp only [isNameStart, Bool.or_eq_true, Bool.and_eq_true, decide_eq_true_eq, beq_iff_eq] at hname
      rcases hname with (⟨hlow, hhigh⟩ | ⟨hlow, hhigh⟩) | rfl
      · exact ⟨Nat.le_trans (by decide) hlow, hhigh⟩
      · exact ⟨hlow, Nat.le_trans hhigh (by decide)⟩
      · decide
    rcases hranges r hr with hr | hr
    · omega
    · omega
  · decide

theorem first_comment_of_ne (h : c ≠ '/') (cs : List Char) :
    Terminal.lineComment.regex.first (c :: cs) = none ∧ Terminal.blockComment.regex.first (c :: cs) = none :=
  ⟨first_seq_exact_of_ne h _ cs, first_seq_exact_of_ne h _ cs⟩

theorem first_comment_of_startsNoComment (h : StartsNoComment c cs) :
    Terminal.lineComment.regex.first (c :: cs) = none ∧ Terminal.blockComment.regex.first (c :: cs) = none := by
  by_cases hc : c = '/'
  · subst hc
    unfold Terminal.regex
    rw [first_seq_exact_self, first_seq_exact_self]
    cases cs with
    | nil => exact ⟨first_seq_of_none rfl _, first_seq_of_none rfl _⟩
    | cons d cs =>
      obtain ⟨hline, hblock⟩ := h rfl d rfl
      exact ⟨first_seq_exact_of_ne hline _ cs, first_seq_exact_of_ne hblock _ cs⟩
  · exact first_comment_of_ne hc cs

/-- A class matches only where one of its characters starts. -/
theorem startOf_of_first (h : t.regex.first (c :: cs) = some ds) : startOf c = some t.lead := by
  have hmarks : ∀ d ∈ ['(', ')', '\x7b', '\x7d', ';'], startOf d = some .mark := all_iff_forall_prop.mp (by decide)
  have hgaps : ∀ d ∈ [' ', '\t', '\x0c', '\r', '\n'], startOf d = some .gap := all_iff_forall_prop.mp (by decide)
  cases t with
  | lineComment =>
    by_cases hc : c = '/'
    · rw [hc]; rfl
    · rw [(first_comment_of_ne hc cs).1] at h
      simp at h
  | blockComment =>
    by_cases hc : c = '/'
    · rw [hc]; rfl
    · rw [(first_comment_of_ne hc cs).2] at h
      simp at h
  | operator =>
    rw [first_operator] at h
    by_cases hc : isMonograph c
    · rw [startOf, if_pos hc]; rfl
    · rw [operatorLength_eq_zero (by simpa using hc)] at h
      simp at h
  | name =>
    rw [first_name] at h
    by_cases hc : isNameStart c
    · rw [startOf, if_neg (by simp [not_monograph (Or.inl hc)]), if_pos hc]; rfl
    · simp [hc] at h
  | number =>
    rw [first_number] at h
    by_cases hc : Text.isDigit c ∨ c = '.'
    · rw [startOf, if_neg (by simp [not_monograph (Or.inr hc)]), if_neg (by simp [not_nameStart_of_digit hc]),
        if_pos (by simpa using hc)]
      rfl
    · rw [not_or] at hc
      rw [numberLength_eq_zero (by simpa using hc.1) hc.2] at h
      simp at h
  | string =>
    by_cases hc : c = '"'
    · rw [hc]; rfl
    · have hnone : Terminal.string.regex.first (c :: cs) = none := first_seq_exact_of_ne hc _ cs
      rw [hnone] at h
      simp at h
  | mark =>
    rw [first_mark] at h
    by_cases hc : isPunctuation c
    · exact hmarks c (by simpa [isPunctuation] using hc)
    · simp [hc] at h
  | gap =>
    rw [first_gap] at h
    by_cases hc : isGap c
    · exact hgaps c (by simpa [isGap, or_assoc] using hc)
    · simp [hc] at h

/-- Apart from operators and comments, no two classes match at the same place. -/
theorem takes_of_first (h : t.regex.first (c :: cs) = some ds) (hlead : t.lead ≠ .operator) : t.Takes (c :: cs) ds := by
  refine ⟨h, fun u hne _ => ?_⟩
  cases hu : u.regex.first (c :: cs) with
  | none => rfl
  | some es =>
    have hsame : t.lead = u.lead := by
      have heq := (startOf_of_first h).symm.trans (startOf_of_first hu)
      simpa using heq
    exfalso
    apply hne
    cases t <;> cases u <;> simp_all [Terminal.lead]

/-! ## What is cut off -/

/-- The class of a piece of a text; none for a bad character. -/
def terminalOf : Lexeme → Option Terminal
  | .blank => some .gap
  | .lineComment => some .lineComment
  | .blockComment _ => some .blockComment
  | .token .keyword => some .name
  | .token .identifier => some .name
  | .token .number => some .number
  | .token .string => some .string
  | .token .operator => some .operator
  | .token .punctuation => some .mark
  | .bad => none

/-- The kind of token that a piece of a text is. -/
def kindOf? : Lexeme → Option TokenKind
  | .token kind => some kind
  | _ => none

/-- A piece of so many characters at the start of a text is what its class takes there. -/
structure Cut (text : List Char) (piece : Lexeme) (length : Nat) : Prop where
  pos : 0 < length
  le : length ≤ text.length
  takes : ∀ t ∈ terminalOf piece, t.Takes text (text.drop length)
  bad : terminalOf piece = none → length = 1 ∧ ∀ t : Terminal, t.regex.first text = none
  kind : kindOf? piece = (terminalOf piece).bind fun t => t.kind? (text.take length)
  issue : segmentIssue ⟨piece, text.take length⟩ = issueAt? (terminalOf piece) text

/-- A piece of a class that is neither an operator nor a comment. -/
theorem Cut.of_first {piece : Lexeme} {length : Nat} (hterminal : terminalOf piece = some t)
    (hlead : t.lead ≠ .operator) (hle : length ≤ cs.length) (hfirst : t.regex.first (c :: cs) = some (cs.drop length))
    (hkind : kindOf? piece = t.kind? ((c :: cs).take (length + 1))) : Cut (c :: cs) piece (length + 1) where
  pos := Nat.succ_pos length
  le := Nat.succ_le_succ hle
  takes := by
    intro u hu
    obtain rfl : t = u := by simpa [hterminal] using hu
    exact takes_of_first hfirst hlead
  bad := by simp [hterminal]
  kind := by rw [hterminal]; exact hkind
  issue := by
    rw [hterminal]
    cases piece with
    | bad => simp [terminalOf] at hterminal
    | blockComment closed =>
      obtain rfl : .blockComment = t := by simpa [terminalOf] using hterminal
      exact absurd rfl hlead
    | _ =>
      cases t with
      | blockComment => exact absurd rfl hlead
      | _ => rfl

/-- A character at which no class matches. -/
theorem Cut.of_none (h : ∀ t : Terminal, t.regex.first (c :: cs) = none) :
    Cut (c :: cs) .bad 1 where
  pos := Nat.one_pos
  le := Nat.succ_le_succ (Nat.zero_le _)
  takes := by simp [terminalOf]
  bad := fun _ => ⟨rfl, h⟩
  kind := rfl
  issue := rfl

/-- Of the classes that start like an operator, a comment comes first. -/
theorem Terminal.takes_comment (h : t.regex.first cs = some ds) (ht : t.priority = 3)
    (hother : ∀ u : Terminal, u ≠ t → u.priority = 3 → u.regex.first cs = none) : t.Takes cs ds := by
  refine ⟨h, fun u hne hle => hother u hne ?_⟩
  cases u <;> simp_all [Terminal.priority]

theorem cut_lineComment (cs : List Char) :
    Cut ('/' :: '/' :: cs) .lineComment ((cs.takeWhile (· ≠ '\n')).length + 2) where
  pos := Nat.succ_pos _
  le := by simpa using ( takeWhile_prefix (· ≠ '\n')).length_le
  takes := by
    intro t ht
    obtain rfl : .lineComment = t := by simpa [terminalOf] using ht
    have hdrop : ('/' :: '/' :: cs).drop ((cs.takeWhile (· ≠ '\n')).length + 2) = cs.dropWhile (· ≠ '\n') :=
      drop_length_takeWhile _ cs
    rw [hdrop]
    refine Terminal.takes_comment (first_lineComment cs) rfl ?_
    intro u hne hu
    cases u with
    | blockComment =>
      unfold Terminal.regex
      rw [first_seq_exact_self, first_seq_exact_of_ne (by decide)]
    | lineComment => exact absurd rfl hne
    | _ => simp [Terminal.priority] at hu
  bad := by simp [terminalOf]
  kind := rfl
  issue := rfl

theorem commentLength_le (cs : List Char) : (commentLength cs).1 ≤ cs.length := by
  fun_induction commentLength cs with
  | case1 => simp
  | case2 cs => simp
  | case3 c cs hend length closed heq ih =>
    rw [heq] at ih
    simpa using ih

theorem cut_blockComment (cs : List Char) :
    Cut ('/' :: '*' :: cs) (.blockComment (commentLength cs).2) ((commentLength cs).1 + 2) where
  pos := Nat.succ_pos _
  le := by simpa using commentLength_le cs
  takes := by
    intro t ht
    obtain rfl : .blockComment = t := by simpa [terminalOf] using ht
    refine Terminal.takes_comment (first_blockComment cs) rfl ?_
    intro u hne hu
    cases u with
    | lineComment =>
      unfold Terminal.regex
      rw [first_seq_exact_self, first_seq_exact_of_ne (by decide)]
    | blockComment => exact absurd rfl hne
    | _ => simp [Terminal.priority] at hu
  bad := by simp [terminalOf]
  kind := rfl
  issue := by
    have hissue : issueAt? (some .blockComment) ('/' :: '*' :: cs)
        = if Text.includes ['*', '/'] cs then none else some .unterminatedComment := rfl
    show _ = issueAt? (some .blockComment) _
    rw [hissue, ← closed_iff_includes]
    cases (commentLength cs).2
    · rfl
    · rfl

theorem cut_operator (hcomment : StartsNoComment c cs) (h : 0 < operatorLength (c :: cs)) :
    Cut (c :: cs) (.token .operator) (operatorLength (c :: cs)) where
  pos := h
  le := (operatorLength_delimited h).1
  takes := by
    intro t ht
    obtain rfl : .operator = t := by simpa [terminalOf] using ht
    refine ⟨by rw [first_operator, if_pos h], ?_⟩
    intro u hne hle
    have hnone := first_comment_of_startsNoComment hcomment
    cases u with
    | lineComment => exact hnone.1
    | blockComment => exact hnone.2
    | operator => exact absurd rfl hne
    | _ => simp [Terminal.priority] at hle
  bad := by simp [terminalOf]
  kind := rfl
  issue := rfl

theorem cut_plainLexeme (cs : List Char) (hmono : isMonograph c = false) :
    Cut (c :: cs) (plainLexeme c cs).1 (plainLexeme c cs).2 := by
  unfold plainLexeme
  split
  · -- a name or a keyword
    rename_i hname
    have hcases : terminalOf (.token (if keywords.contains (String.ofList ((c :: cs).take (nameLength cs + 1))) then
        .keyword else .identifier)) = some .name := by
      split
      · rfl
      · rfl
    refine Cut.of_first hcases (by decide) (nameLength_delimited cs).1 ?_ rfl
    rw [first_name, if_pos hname]
  · rename_i hname
    split
    · -- a number
      rename_i hnumber
      obtain ⟨word, rest, hword, hlength, -⟩ := numberLength_delimited hnumber
      have hle : numberLength (c :: cs) ≤ cs.length + 1 := by
        rw [← hlength, ← length_cons, hword]
        simp
      obtain ⟨length, hlength⟩ := Nat.exists_eq_add_one.mpr hnumber
      rw [hlength] at hle ⊢
      refine Cut.of_first rfl (t := .number) (by decide) (by omega) ?_ rfl
      rw [first_number, if_pos hnumber, hlength]
      rfl
    · rename_i hnumber
      split
      · rename_i hquote
        subst hquote
        cases hlength : stringLength cs with
        | some length =>
          refine Cut.of_first rfl (t := .string) (by decide) (stringLength_closed hlength).1 ?_ rfl
          rw [first_string, hlength]
          rfl
        | none =>
          apply Cut.of_none
          intro t
          -- Only a string starts with a quote, and this one does not end.
          cases ht : t.regex.first ('"' :: cs) with
          | none => rfl
          | some left =>
            have hstart : some Terminal.string = some t.lead := startOf_of_first ht
            obtain rfl : t = .string := by cases t <;> simp_all [Terminal.lead]
            simp [first_string, hlength] at ht
      · rename_i hquote
        split
        · rename_i hmark
          refine Cut.of_first rfl (t := .mark) (by decide) (Nat.zero_le _) ?_ rfl
          rw [first_mark, if_pos hmark]
          rfl
        · rename_i hmark
          split
          · rename_i hgap
            refine Cut.of_first rfl (t := .gap) (by decide) ( takeWhile_prefix _).length_le ?_ rfl
            rw [first_gap, if_pos hgap, drop_length_takeWhile]
          · rename_i hgap
            apply Cut.of_none
            have hcomment := first_comment_of_ne (c := c) (fun hc => by simp [hc, isMonograph] at hmono) cs
            intro t
            cases t with
            | lineComment => exact hcomment.1
            | blockComment => exact hcomment.2
            | operator => rw [first_operator, operatorLength_eq_zero hmono]; rfl
            | name => rw [first_name, if_neg hname]
            | number => rw [first_number, if_neg hnumber]
            | string => exact first_seq_exact_of_ne hquote _ cs
            | mark => rw [first_mark, if_neg hmark]
            | gap => rw [first_gap, if_neg hgap]

/-- What is cut off at the start of a text is what its class takes there. -/
theorem cut_lexeme (c : Char) (cs : List Char) : Cut (c :: cs) (lexeme c cs).1 (lexeme c cs).2 := by
  by_cases hline : c = '/' ∧ cs.head? = some '/'
  · obtain ⟨rfl, hhead⟩ := hline
    obtain ⟨rest, rfl⟩ := head?_eq_some_iff.mp hhead
    exact cut_lineComment rest
  by_cases hblock : c = '/' ∧ cs.head? = some '*'
  · obtain ⟨rfl, hhead⟩ := hblock
    obtain ⟨rest, rfl⟩ := head?_eq_some_iff.mp hhead
    exact cut_blockComment rest
  have hcomment : StartsNoComment c cs := by
    intro hc d hd
    constructor
    · rintro rfl
      exact hline ⟨hc, hd⟩
    · rintro rfl
      exact hblock ⟨hc, hd⟩
  by_cases hlength : 0 < operatorLength (c :: cs)
  · rw [lexeme_of_operator hcomment hlength]
    exact cut_operator hcomment hlength
  · have hmono : isMonograph c = false := by
      rw [Bool.eq_false_iff]
      intro hmono
      exact hlength (operatorLength_pos hmono cs)
    rw [lexeme_of_not_monograph hmono]
    exact cut_plainLexeme cs hmono

/-! ## Places -/

/-- Going through the characters before an offset leads to the place of the offset. -/
theorem start_after_eq_ofOffset (text : List Char) : Position.start.after text = .ofOffset text text.length := by
  induction text using List.reverseRecOn with
  | nil => rfl
  | append_singleton text c ih =>
    rw [Position.after_append, ih]
    unfold Position.ofOffset Position.after
    simp only [take_length, foldl_cons, foldl_nil, Position.advance]
    by_cases hc : c = '\n'
    · simp [hc]
      omega
    · simp [hc]
      omega

theorem ofOffset_after (text : List Char) (offset length : Nat) :
    (Position.ofOffset text offset).after ((text.drop offset).take length) = .ofOffset text (offset + length) := by
  have hplace (n : Nat) : Position.ofOffset text n = Position.start.after (text.take n) := by
    rw [start_after_eq_ofOffset]
    unfold Position.ofOffset
    rw [take_length]
  rw [hplace, hplace, ← Position.after_append, ← take_add]

/-! ## The tiling of a text -/

theorem tokensFrom_cons (p : Position) (s : Segment) (rest : List Segment) :
    tokensFrom p (s :: rest)
      = ((kindOf? s.lexeme).map fun kind => ⟨kind, String.ofList s.text, p, p.after s.text⟩).toList
        ++ tokensFrom (p.after s.text) rest := by
  obtain ⟨piece, text⟩ := s
  cases piece <;> rfl

theorem findingsFrom_cons (p : Position) (s : Segment) (rest : List Segment) :
    findingsFrom p (s :: rest)
      = ((segmentIssue s).map fun issue => ⟨p, issue⟩).toList ++ findingsFrom (p.after s.text) rest := by
  rw [findingsFrom]
  cases segmentIssue s <;> rfl

/-- What the scanner reads from an offset on is read off tiles from there to the end. -/
theorem exists_tiles (text : List Char) (n : Nat) : ∀ offset, offset + n = text.length →
    ∃ tiles, Tiles text offset tiles ∧
      tokensFrom (.ofOffset text offset) (segments (text.drop offset)) = tiles.filterMap (Tile.token? text) ∧
      findingsFrom (.ofOffset text offset) (segments (text.drop offset)) = tiles.filterMap (Tile.finding? text) := by
  induction n using Nat.strongRecOn with
  | ind n ih =>
    intro offset hoffset
    cases hdrop : text.drop offset with
    | nil =>
      have hlength := congrArg List.length hdrop
      rw [length_drop, length_nil] at hlength
      obtain rfl : offset = text.length := by omega
      exact ⟨[], .done, rfl, rfl⟩
    | cons c cs =>
      have hlength := congrArg List.length hdrop
      rw [length_drop, length_cons] at hlength
      have hcut := cut_lexeme c cs
      generalize hlexeme : lexeme c cs = cutoff at hcut
      obtain ⟨piece, length⟩ := cutoff
      have hpos := hcut.pos
      have hle : length ≤ cs.length + 1 := hcut.le
      obtain ⟨tiles, htiles, htokens, hfindings⟩ := ih (n - length) (by omega) (offset + length) (by omega)
      let tile : Tile := ⟨offset, offset + length, terminalOf piece⟩
      have hdrop' : text.drop (offset + length) = (c :: cs).drop length := by
        rw [← hdrop, drop_drop]
      have hslice : tile.slice text = (c :: cs).take length := by
        show (text.drop offset).take (offset + length - offset) = _
        rw [hdrop, Nat.add_sub_cancel_left]
      have hrest : cs.drop (length - 1) = text.drop (offset + length) := by
        rw [hdrop']
        cases length with
        | zero => omega
        | succ length => rfl
      have hafter : (Position.ofOffset text offset).after ((c :: cs).take length)
          = .ofOffset text (offset + length) := by
        rw [← hdrop]
        exact ofOffset_after text offset length
      have hfits : tile.Fits text := by
        refine ⟨Nat.lt_add_of_pos_right hpos, by simp only [tile]; omega, ?_, ?_⟩
        · intro t ht
          show t.Takes (text.drop offset) (text.drop (offset + length))
          rw [hdrop, hdrop']
          exact hcut.takes t ht
        · intro hnone
          obtain ⟨rfl, hall⟩ := hcut.bad hnone
          refine ⟨rfl, ?_⟩
          show ∀ t : Terminal, t.regex.first (text.drop offset) = none
          rw [hdrop]
          exact hall
      refine ⟨tile :: tiles, Tiles.next hfits htiles, ?_, ?_⟩
      · have htoken : tile.token? text = (kindOf? piece).map fun kind =>
            ⟨kind, String.ofList ((c :: cs).take length), .ofOffset text offset, .ofOffset text (offset + length)⟩ := by
          rw [hcut.kind, ← hslice]
          rfl
        rw [segments_cons hlexeme, tokensFrom_cons, hafter, hrest, htokens, filterMap_cons, htoken]
        cases kindOf? piece <;> rfl
      · have hfinding : tile.finding? text
            = (segmentIssue ⟨piece, (c :: cs).take length⟩).map fun issue => ⟨.ofOffset text offset, issue⟩ := by
          rw [hcut.issue, ← hdrop]
          rfl
        rw [segments_cons hlexeme, findingsFrom_cons, hafter, hrest, hfindings, filterMap_cons, hfinding]
        cases segmentIssue ⟨piece, (c :: cs).take length⟩ <;> rfl

/-- There is one way to lay tiles over a text, each what a class takes at its place or a character that no class takes;
the tokens are those of the tiles in order, with the characters between their two offsets and the places of these,
and the findings are one for each character that no class takes and for each block comment that has no end. -/
theorem scan_tiles (text : String) :
    ∃ tiles, Tiles text.toList 0 tiles ∧ (∀ others, Tiles text.toList 0 others → others = tiles) ∧
      (scan text).1 = tiles.filterMap (Tile.token? text.toList) ∧
      (scan text).2 = tiles.filterMap (Tile.finding? text.toList) := by
  obtain ⟨tiles, htiles, htokens, hfindings⟩ := exists_tiles text.toList text.toList.length 0 (Nat.zero_add _)
  exact ⟨tiles, htiles, fun others hothers => hothers.unique htiles, htokens, hfindings⟩

end Patchbay.Scan
