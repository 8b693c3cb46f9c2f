import Patchbay.Proofs.Parser.Acceptance
import Patchbay.Proofs.Parser.Carried

/-!
# One statement does not hide the next

Tokens that are read without a finding, and tokens with balanced parentheses that end with a semicolon, are read alike
whatever follows them, and what follows is read as if it stood alone. `Program.parse_append` says so of
whole lists of tokens: the programs are put together, with higher numbers in the second, and so are the findings.

A round reads alike in surroundings when it is guarded: its tokens end with a semicolon, and where it recovers, it
stops within its tokens. Rounds that report nothing are guarded because they never recover, and rounds on
balanced tokens because recovery from any place in them leads to the semicolon.
-/

open List

namespace Patchbay.Parser

open Surroundings State

/-! ## Balanced tokens -/

/-- Tokens with balanced parentheses, and without semicolons and braces. -/
inductive Balanced : List Token → Prop
  | nil : Balanced []
  | token {t : Token} {ts : List Token} (h : ∀ mark ∈ ["(", ")", ";", "\x7b", "\x7d"], t.isMark mark = false)
    (hts : Balanced ts) : Balanced (t :: ts)
  | group {opening closing : Token} {inner ts : List Token} (hopening : opening.isMark "(" = true)
    (hinner : Balanced inner) (hclosing : closing.isMark ")" = true) (hts : Balanced ts) :
    Balanced (opening :: (inner ++ closing :: ts))

variable {d : Int} {n : Nat} {s : State} {t token keyword semicolon : Token} {p : Program} {ts rest names : List Token}
  {c : Surroundings} {good : Program → State → Prop}

theorem isMark_eq_false_of_isMark {text text' : String} (h : t.isMark text) (hne : text ≠ text') :
    t.isMark text' = false := by
  simp [Token.isMark, text_of_isMark h, hne]

theorem Balanced.unbraced (h : Balanced ts) : ∀ t ∈ ts, t.isMark "\x7b" = false := by
  induction h with
  | nil => simp
  | token hmark _ ih => simpa [hmark] using ih
  | @group opening closing inner ts hopening _ hclosing _ ihinner ihts =>
    have hopening' : opening.isMark "\x7b" = false := isMark_eq_false_of_isMark hopening (by decide)
    have hclosing' : closing.isMark "\x7b" = false := isMark_eq_false_of_isMark hclosing (by decide)
    intro t ht
    simp only [mem_cons, mem_append] at ht
    rcases ht with rfl | ht | rfl | ht
    · exact hopening'
    · exact ihinner t ht
    · exact hclosing'
    · exact ihts t ht

theorem skipStatement_closing (h : t.isMark ")") (depth : Nat) (ts : List Token) (last : Option Token) :
    skipStatement depth (t :: ts) last = skipStatement (depth - 1) ts (some t) := by
  rw [skipStatement, isMark_eq_false_of_isMark h (by decide), isMark_eq_false_of_isMark h (by decide)]
  simp [h]

/-- Skipping balanced tokens opens no bracket that stays open. -/
theorem skipStatement_balanced (h : Balanced ts) (depth : Nat) (us : List Token) (last : Option Token) :
    ∃ last', skipStatement depth (ts ++ us) last = skipStatement depth us last' := by
  induction h generalizing depth us last with
  | nil => exact ⟨last, rfl⟩
  | @token t ts hmark _ ih =>
    obtain ⟨last', hskip⟩ := ih depth us (some t)
    refine ⟨last', ?_⟩
    rw [cons_append, skipStatement]
    simp [hmark, hskip]
  | @group opening closing inner ts hopening _ hclosing _ ihinner ihts =>
    obtain ⟨last₁, hskip₁⟩ := ihinner (depth + 1) (closing :: ts ++ us) (some opening)
    obtain ⟨last₂, hskip₂⟩ := ihts depth us (some closing)
    refine ⟨last₂, ?_⟩
    rw [cons_append, skipStatement, hopening, Bool.true_or, if_pos rfl, List.append_assoc, hskip₁,
      cons_append, skipStatement_closing hclosing, Nat.add_sub_cancel, hskip₂]

theorem suffix_of_suffix_append {α : Type} {vs as bs : List α} (h : vs <:+ as ++ bs) :
    vs <:+ bs ∨ ∃ vs', vs = vs' ++ bs ∧ vs' <:+ as := by
  obtain ⟨front, hfront⟩ := h
  rcases append_eq_append_iff.mp hfront with ⟨middle, has, hvs⟩ | ⟨middle, hfront', hbs⟩
  · exact Or.inr ⟨middle, hvs, front, has.symm⟩
  · exact Or.inl ⟨middle, hbs.symm⟩

/-- From any place in balanced tokens, skipping leads outside brackets: a parenthesis that opens on the way is closed
on the way, and one that closes without that does not count. -/
theorem skipStatement_suffix_balanced {vs : List Token} (h : Balanced ts) (hvs : vs <:+ ts) (us : List Token)
    (last : Option Token) : ∃ last', skipStatement 0 (vs ++ us) last = skipStatement 0 us last' := by
  induction h generalizing vs us last with
  | nil =>
    obtain rfl : vs = [] := suffix_nil.mp hvs
    exact ⟨last, rfl⟩
  | @token t ts hmark hts ih =>
    rcases suffix_cons_iff.mp hvs with rfl | hvs
    · exact skipStatement_balanced (.token hmark hts) 0 us last
    · exact ih hvs us last
  | @group opening closing inner ts hopening hinner hclosing hts ihinner ihts =>
    rcases suffix_cons_iff.mp hvs with rfl | hvs
    · exact skipStatement_balanced (.group hopening hinner hclosing hts) 0 us last
    rcases suffix_of_suffix_append hvs with hvs | ⟨vs', rfl, hvs'⟩
    · rcases suffix_cons_iff.mp hvs with rfl | hvs
      · obtain ⟨last', hskip⟩ := skipStatement_balanced hts 0 us (some closing)
        exact ⟨last', by rw [cons_append, skipStatement_closing hclosing, hskip]⟩
      · exact ihts hvs us last
    · obtain ⟨last₁, hskip₁⟩ := ihinner hvs' (closing :: ts ++ us) last
      obtain ⟨last₂, hskip₂⟩ := skipStatement_balanced hts 0 us (some closing)
      exact ⟨last₂, by rw [List.append_assoc, hskip₁, cons_append, skipStatement_closing hclosing, hskip₂]⟩

/-- From any place in balanced tokens before a semicolon, recovery stops right after it. -/
theorem stops_of_balanced (h : Balanced ts) (hsemicolon : semicolon.isMark ";")
    (hs : s.rest <:+ ts ++ [semicolon]) (hne : s.rest ≠ []) : c.Stops s := by
  obtain ⟨vs, hrest, hvs⟩ : ∃ vs, s.rest = vs ++ [semicolon] ∧ vs <:+ ts := by
    rcases suffix_concat_iff.mp hs with hnil | ⟨vs, hrest, hvs⟩
    · exact absurd hnil hne
    · exact ⟨vs, by simpa using hrest, hvs⟩
  have hstop (tail : List Token) :
      skipStatement 0 (vs ++ semicolon :: tail) s.last = (tail, some semicolon) := by
    obtain ⟨last, hskip⟩ := skipStatement_suffix_balanced h hvs (semicolon :: tail) s.last
    rw [hskip, skipStatement, isMark_eq_false_of_isMark hsemicolon (by decide),
      isMark_eq_false_of_isMark hsemicolon (by decide), isMark_eq_false_of_isMark hsemicolon (by decide),
      isMark_eq_false_of_isMark hsemicolon (by decide)]
    simp [hsemicolon]
  rw [Stops, hrest, List.append_assoc, singleton_append, hstop, hstop]
  rfl

theorem stops_of_tail_nil (h : c.tail = []) (s : State) : c.Stops s := by
  simp [Stops, h]

/-! ## Guarded rounds -/

/-- On the way from `s` to `s'` tokens are left before the last semicolon, and recovery stops within them. -/
structure Guarded (c : Surroundings) (s s' : State) : Prop where
  closed : c.tail = [] ∨ ∃ ts semicolon, s.rest = ts ++ [semicolon] ∧ semicolon.isMark ";" = true
  stops : ∀ t, s.Extends t → c.Lasts t → ∀ p i, (t.report p i).recover.Extends s' → c.Stops t

namespace Guarded

variable {c : Surroundings} {s t s' : State}

theorem lasts (h : Guarded c s s') (ht : s.Before t) : c.Lasts t := by
  rcases h.closed with htail | ⟨ts, semicolon, hs, hsemicolon⟩
  · exact Or.inl htail
  · exact Or.inr (ht.rest_ne_nil hs hsemicolon)

/-- Recovery after a report on the way. -/
theorem recover (h : Guarded c s s') (hext : s.Extends t) (ht : s.Before t) (p : Position) (i : Issue)
    (hs' : (t.report p i).recover.Extends s') : (c.embed (t.report p i)).recover = c.embed (t.report p i).recover :=
  recover_embed (s := t.report p i) (h.stops t hext (h.lasts ht) p i hs')

theorem recoverNext (h : Guarded c s s') (hext : s.Extends t) (ht : s.Before t) (i : Issue)
    (hs' : (t.reportNext i).recover.Extends s') :
    ((c.embed t).reportNext i).recover = c.embed (t.reportNext i).recover := by
  rw [reportNext_embed (h.lasts ht)]
  exact h.recover hext ht _ i hs'

theorem endStatement (h : Guarded c s s') (hext : s.Extends t) (ht : s.Before t) (what : String)
    (hs' : (endStatement what t).2.Extends s') :
    Parser.endStatement what (c.embed t)
      = ((Parser.endStatement what t).1, c.embed (Parser.endStatement what t).2) := by
  refine endStatement_embed (h.lasts ht) fun p i heq => ?_
  rw [heq] at hs'
  exact h.stops t hext (h.lasts ht) p i hs'

end Guarded

theorem importStatement_embed (hrest : s.rest = keyword :: rest) (hkeyword : keyword.isKeyword "import")
    (h : Guarded c s (importStatement s).2) :
    importStatement (c.embed s)
      = ((importStatement s).1.map fun i => { i with mark := i.mark.shift c.ids }, c.embed (importStatement s).2) := by
  have hext₁ := s.extends_advance
  have hbefore₁ := State.Before.advance hrest (isMark_eq_false (by simp [kind_of_isKeyword hkeyword]))
  have hlasts₁ := h.lasts hbefore₁
  have hlasts := hlasts₁.of_extends hext₁
  unfold importStatement at h ⊢
  dsimp only at h ⊢
  rw [peek_embed hlasts, advance_embed hlasts, atMark_embed hlasts₁]
  by_cases hopen : (!s.advance.atMark "(")
  · rw [if_pos hopen] at h
    rw [if_pos hopen, if_pos hopen, h.recoverNext hext₁ hbefore₁ _ (.refl _)]
    rfl
  · rw [if_neg hopen] at h
    rw [if_neg hopen, if_neg hopen, advance_embed hlasts₁]
    obtain ⟨opening, rest₁, hrest₁, hopening⟩ := exists_of_atMark (by simpa using hopen)
    have hext₂ := hext₁.trans (extends_advance _)
    have hbefore₂ := hbefore₁.trans (.advance hrest₁ (isMark_eq_false_of_isMark hopening (by decide)))
    have hlasts₂ := h.lasts hbefore₂
    rcases hlasts₂.cases with ⟨hrest₂, hrest₂'⟩ | ⟨path, rest₂, hrest₂, hrest₂'⟩
    · rw [hrest₂] at h
      rw [hrest₂, hrest₂']
      rw [h.recoverNext hext₂ hbefore₂ _ (.refl _)]
      rfl
    · rw [hrest₂] at h
      rw [hrest₂, hrest₂']
      dsimp only at h ⊢
      by_cases hkind : path.kind ≠ .string
      · rw [if_pos hkind] at h
        rw [if_pos hkind, if_pos hkind, h.recoverNext hext₂ hbefore₂ _ (.refl _)]
        rfl
      · rw [if_neg hkind] at h
        rw [if_neg hkind, if_neg hkind, advance_embed hlasts₂]
        have hstring : path.kind = .string := by simpa using hkind
        have hext₃ := hext₂.trans (extends_advance _)
        have hbefore₃ := hbefore₂.trans (.advance hrest₂ (isMark_eq_false (by simp [hstring])))
        have hlasts₃ := h.lasts hbefore₃
        by_cases hclose : s.advance.advance.advance.atMark ")"
        · rw [if_pos hclose] at h
          obtain ⟨closing, rest₃, hrest₃, hclosing⟩ := exists_of_atMark hclose
          have hbefore₄ := hbefore₃.trans (.advance hrest₃ (isMark_eq_false_of_isMark hclosing (by decide)))
          rw [if_pos hclose, if_pos (by rwa [atMark_embed hlasts₃]), advance_embed hlasts₃,
            h.endStatement (hext₃.trans (extends_advance _)) hbefore₄ _ (extends_count _), newMark_embed,
            count_embed]
          rfl
        · rw [if_neg hclose] at h
          rw [if_neg hclose, if_neg (by rwa [atMark_embed hlasts₃]),
            h.recoverNext hext₃ hbefore₃ _ (extends_count _), newMark_embed, count_embed]
          rfl

theorem foldl_advance_embed (h : c.Lasts (names.foldl (fun s _ => s.advance) s)) :
    names.foldl (fun s _ => s.advance) (c.embed s) = c.embed (names.foldl (fun s _ => s.advance) s) := by
  induction names generalizing s with
  | nil => rfl
  | cons name names ih =>
    have hs := h.of_extends (extends_foldl_advance (name :: names) s)
    rw [foldl_cons, foldl_cons, advance_embed hs]
    exact ih h

theorem before_foldl_advance (hrest : s.rest = names ++ rest) (h : ∀ name ∈ names, name.isMark ";" = false) :
    s.Before (names.foldl (fun s _ => s.advance) s) := by
  refine ⟨names, ?_, h⟩
  rw [rest_foldl_advance, hrest, drop_left]

theorem declareStatement_embed (hrest : s.rest = keyword :: rest) (hkeyword : keyword.isKeyword "declare")
    (h : Guarded c s (declareStatement s).2) :
    declareStatement (c.embed s)
      = ((declareStatement s).1.map fun i => { i with mark := i.mark.shift c.ids },
          c.embed (declareStatement s).2) := by
  have hext₁ := s.extends_advance
  have hbefore₁ := State.Before.advance hrest (isMark_eq_false (by simp [kind_of_isKeyword hkeyword]))
  have hlasts := (h.lasts hbefore₁).of_extends hext₁
  have htokens := takeWhile_append_dropWhile (p := fun t : Token => t.kind == .identifier) (l := s.advance.rest)
  have hnames : ∀ name ∈ s.advance.rest.takeWhile (·.kind == .identifier), name.isMark ";" = false := by
    intro name hname
    have hall := all_takeWhile (p := fun t : Token => t.kind == .identifier) (l := s.advance.rest)
    have hkind : name.kind = .identifier := by simpa using all_eq_true.mp hall name hname
    exact isMark_eq_false (by simp [hkind])
  have hbefore₂ := hbefore₁.trans (before_foldl_advance htokens.symm hnames)
  have hext₂ := hext₁.trans (extends_foldl_advance (s.advance.rest.takeWhile (·.kind == .identifier)) s.advance)
  have hlasts₂ := h.lasts hbefore₂
  -- The names end before the tokens that are read alone do.
  have htake : (c.embed s.advance).rest.takeWhile (·.kind == .identifier)
      = s.advance.rest.takeWhile (·.kind == .identifier) := by
    show (s.advance.rest ++ c.tail).takeWhile _ = _
    rcases hlasts₂ with htail | hne
    · rw [htail, append_nil]
    · rw [rest_foldl_advance] at hne
      rw [takeWhile_append, if_neg]
      intro hlength
      exact hne (drop_eq_nil_of_le (Nat.le_of_eq hlength.symm))
  unfold declareStatement at h ⊢
  dsimp only at h ⊢
  rw [peek_embed hlasts, advance_embed hlasts, htake, foldl_advance_embed hlasts₂]
  generalize s.advance.rest.takeWhile (·.kind == .identifier) = names at h hlasts₂ hbefore₂ hext₂ ⊢
  generalize names.foldl (fun s _ => s.advance) s.advance = t at h hlasts₂ hbefore₂ hext₂ ⊢
  rcases hlasts₂.cases with ⟨hrest₂, hrest₂'⟩ | ⟨value, rest₂, hrest₂, hrest₂'⟩
  · rw [hrest₂] at h
    rw [hrest₂, hrest₂']
    rw [h.recoverNext hext₂ hbefore₂ _ (.refl _)]
    rfl
  · rw [hrest₂] at h
    rw [hrest₂, hrest₂']
    dsimp only at h ⊢
    by_cases hfits : (names.isEmpty || decide (value.kind ≠ .string))
    · rw [if_pos hfits] at h
      rw [if_pos hfits, if_pos hfits, h.recoverNext hext₂ hbefore₂ _ (.refl _)]
      rfl
    · rw [if_neg hfits] at h
      have hstring : names ≠ [] ∧ value.kind = .string := by simpa using hfits
      have hbefore₃ := hbefore₂.trans (.advance hrest₂ (isMark_eq_false (by simp [hstring.2])))
      rw [if_neg hfits, if_neg hfits, advance_embed hlasts₂,
        h.endStatement (hext₂.trans (extends_advance _)) hbefore₃ _ (extends_count _), newMark_embed,
        count_embed]
      rfl

/-! ## Definitions -/

theorem before_parametersFrom (names : List String) (ts : List Token) (last : Option Token) :
    ∃ taken, ts = taken ++ (parametersFrom names ts last).rest ∧ ∀ t ∈ taken, t.isMark ";" = false := by
  have hname {t : Token} (ht : isParameter t) : t.isMark ";" = false := by
    simp only [isParameter, Bool.and_eq_true, beq_iff_eq] at ht
    exact isMark_eq_false (by simp [ht.1])
  fun_induction parametersFrom names ts last with
  | case1 => exact ⟨[], rfl, by simp⟩
  | case2 names t last ht => exact ⟨[t], rfl, by simpa using hname ht⟩
  | case3 => exact ⟨[], rfl, by simp⟩
  | case4 => exact ⟨[], rfl, by simp⟩
  | case5 names t u rest last ht hu ih =>
    obtain ⟨taken, htaken, hfree⟩ := ih
    have hu' : u.isMark ";" = false := isMark_eq_false (by simp [kind_of_isOperator hu])
    refine ⟨t :: u :: taken, by rw [cons_append, cons_append, ← htaken], ?_⟩
    simpa [hname (by simpa using ht), hu'] using hfree
  | case6 names t u rest last ht hu hu' =>
    have hu'' : u.isMark ";" = false := isMark_eq_false_of_isMark hu' (by decide)
    exact ⟨[t, u], rfl, by simp [hname (by simpa using ht), hu'']⟩
  | case7 names t u rest last ht hu hu' => exact ⟨[t], rfl, by simpa using hname (by simpa using ht)⟩

/-- Parameters take no semicolon, and what cannot be read is reported where it stands. -/
theorem before_parameters (s : State) : s.Before (parameters s).2.2 ∧
    ((parameters s).2.1 = false → ∃ t i, s.Extends t ∧ s.Before t ∧ (parameters s).2.2 = t.reportNext i) := by
  unfold parameters
  by_cases hopen : (!s.atMark "(")
  · rw [if_pos hopen]
    exact ⟨.refl s, by simp⟩
  · rw [if_neg hopen]
    obtain ⟨opening, rest, hrest, hopening⟩ := exists_of_atMark (by simpa using hopen)
    have hadvance := State.Before.advance hrest (isMark_eq_false_of_isMark hopening (by decide))
    have htook := took_parametersFrom [] s.advance.rest s.advance.last
    obtain ⟨taken, htaken, hfree⟩ := before_parametersFrom [] s.advance.rest s.advance.last
    dsimp only
    generalize parametersFrom [] s.advance.rest s.advance.last = read at htook htaken ⊢
    have hread : s.Before { s.advance with rest := read.rest, last := read.last } :=
      hadvance.trans ⟨taken, htaken, hfree⟩
    have hext : s.Extends { s.advance with rest := read.rest, last := read.last } :=
      s.extends_advance.trans (.of_took htook)
    cases read.issue with
    | none => exact ⟨hread, by simp⟩
    | some issue => exact ⟨hread.trans (.of_rest rfl), fun _ => ⟨_, issue, hext, hread, rfl⟩⟩

/-- Reading alone does not run out of tokens in the body of a definition, and finds the end within its tokens. -/
def Bodied (c : Surroundings) (d : Int) (name : Token) (s : State) : Prop :=
  ∀ body t, Gives d (.expression true) (header s).2.2.advance body t →
    c.Lasts t ∧ (body.invalid = true → c.Stops t) ∧
      (body.invalid = false → c.Ends ("definition of '" ++ name.text ++ "'") t)

/-- A guarded definition reads alike in surroundings if its body does. -/
theorem Guarded.definition {c : Surroundings} {d : Int} {name : Token} {rest : List Token} {s t : State}
    {e : Definition} (hrest : s.rest = name :: rest) (hname : name.kind = .identifier) (h : Guarded c s t)
    (hread : Gives d (.definition name) s e t)
    (hbodied : (header s).2.1 → (header s).2.2.peek.any (·.isOperator "=") → Bodied c d name s) :
    Gives d (.definition name) (c.embed s) (e.shift c.ids) (c.embed t) := by
  have hext : s.Extends s.advance.count := s.extends_advance.trans (extends_count _)
  have hbefore : s.Before s.advance.count :=
    (State.Before.advance hrest (isMark_eq_false (by simp [hname]))).trans (.of_rest rfl)
  have hheader := before_parameters s.advance.count
  have hlasts : c.Lasts (header s).2.2 := h.lasts (hbefore.trans hheader.1)
  obtain ⟨_, hread⟩ := hread
  cases hread with
  | headerUnreadable hreadable =>
    obtain ⟨t, i, htext, htbefore, heq⟩ := hheader.2 hreadable
    have heq' : (header s).2.2 = t.reportNext i := heq
    refine headerUnreadable_embed hreadable hlasts ?_
    rw [heq'] at h ⊢
    exact h.stops t (hext.trans htext) (h.lasts (hbefore.trans htbefore)) _ i (.refl _)
  | headerUnended hreadable hequals =>
    exact headerUnended_embed hreadable hequals hlasts
      (h.stops _ (hext.trans (extends_parameters _)) hlasts _ _ (.refl _))
  | bodyInvalid hreadable hequals hbody hinvalid =>
    obtain ⟨ht, hstops, -⟩ := hbodied hreadable hequals _ _ ⟨_, hbody⟩
    exact bodyInvalid_embed hreadable hequals hlasts (hbody.carried (.inl ht)) hinvalid (hstops hinvalid)
  | definition hreadable hequals hbody hvalid =>
    obtain ⟨ht, -, hends⟩ := hbodied hreadable hequals _ _ ⟨_, hbody⟩
    exact definition_embed hreadable hequals hlasts (hbody.carried (.inl ht)) hvalid ht (hends hvalid)

/-! ## Rounds -/

/-- A round takes at least one token. -/
theorem length_round (hrest : s.rest = token :: rest) : (round d token p s).2.rest.length + 1 ≤ s.rest.length := by
  have hadvance {t : State} (h : s.advance.Extends t) : t.rest.length + 1 ≤ s.rest.length := by
    rw [← length_advance hrest]
    exact Nat.succ_le_succ h.length_le
  unfold round
  split
  · exact hadvance (advance_extends_importStatement s)
  · split
    · exact hadvance (advance_extends_declareStatement s)
    · split
      · exact hadvance (gives_definition d token s).choose_spec.entry_extends
      · split
        · exact Nat.le_of_eq (length_advance (s := s.report _ _) hrest)
        · rename_i hbrace
          exact length_recover (s := s.report _ _) hrest (by simpa using hbrace)

theorem extends_body {t : State} {body : Box} (h : Gives d (.expression true) (header s).2.2.advance body t) :
    s.Extends t :=
  ((s.extends_advance.trans (extends_header s)).trans (extends_advance _)).trans h.choose_spec.extends

theorem fuelFor_eq (s : State) : fuelFor s = (10 * s.rest.length + 9) + 1 := by
  unfold fuelFor
  omega

/-- A guarded round reads alike in surroundings. -/
theorem round_embed {q : Program} (hrest : s.rest = token :: rest) (h : Guarded c s (round d token p s).2)
    (hbodied : token.kind = .identifier → (header s).2.1 → (header s).2.2.peek.any (·.isOperator "=") →
      Bodied c d token s) :
    round d token (q.append (p.shift c.ids)) (c.embed s)
      = (q.append ((round d token p s).1.shift c.ids), c.embed (round d token p s).2) := by
  unfold round at h ⊢
  by_cases himport : token.isKeyword "import"
  · rw [if_pos himport] at h
    rw [if_pos himport, if_pos himport, importStatement_embed hrest himport h]
    generalize importStatement s = read
    obtain ⟨statement, t⟩ := read
    cases statement <;> simp [Program.append, Program.shift]
  rw [if_neg himport] at h
  rw [if_neg himport, if_neg himport]
  by_cases hdeclare : token.isKeyword "declare"
  · rw [if_pos hdeclare] at h
    rw [if_pos hdeclare, if_pos hdeclare, declareStatement_embed hrest hdeclare h]
    generalize declareStatement s = read
    obtain ⟨statement, t⟩ := read
    cases statement <;> simp [Program.append, Program.shift]
  rw [if_neg hdeclare] at h
  rw [if_neg hdeclare, if_neg hdeclare]
  by_cases hname : token.kind = .identifier
  · rw [if_pos hname] at h
    rw [if_pos hname, if_pos hname]
    have hdefinition : definition d (fuelFor (c.embed s)) token (c.embed s)
        = ((definition d (fuelFor s) token s).1.shift c.ids, c.embed (definition d (fuelFor s) token s).2) := by
      exact (h.definition hrest hname (gives_definition d token s) (hbodied hname)).definition_eq
    rw [hdefinition]
    simp [Program.append, Program.shift, Definition.shiftAll_eq_map]
  rw [if_neg hname] at h
  rw [if_neg hname, if_neg hname]
  have hs : c.Lasts s := h.lasts (.refl s)
  by_cases hbrace : token.isMark "\x7d"
  · rw [if_pos hbrace, if_pos hbrace, report_embed, advance_embed (s := s.report _ _) hs]
  · rw [if_neg hbrace] at h
    rw [if_neg hbrace, if_neg hbrace, report_embed, h.recover (.refl s) (.refl s) _ _ (.refl _)]

/-! ## Statements -/

theorem statements_of_nil (d : Int) (n : Nat) (p : Program) (h : s.rest = []) : statements d n p s = (p, s) := by
  cases n with
  | zero => rfl
  | succ n => rw [statements, h]

theorem statements_of_cons (d : Int) (n : Nat) (p : Program) (h : s.rest = token :: rest) :
    statements d (n + 1) p s = statements d n (round d token p s).1 (round d token p s).2 := by
  rw [statements, h]

/-- From every good state with tokens left, the next round reads alike in surroundings and leads to a good state. -/
def Passable (c : Surroundings) (d : Int) (good : Program → State → Prop) : Prop :=
  ∀ p s token rest, good p s → s.rest = token :: rest →
    Guarded c s (round d token p s).2 ∧
      (token.kind = .identifier → (header s).2.1 = true → (header s).2.2.peek.any (·.isOperator "=") = true →
        Bodied c d token s) ∧
      good (round d token p s).1 (round d token p s).2

/-- Rounds that read alike one by one read alike together, and leave the others to be read. -/
theorem statements_embed (h : Passable c d good) (q : Program) {m : Nat} (hgood : good p s) (hm : s.rest.length ≤ m)
    (hn : (c.embed s).rest.length ≤ n) :
    (statements d m p s).2.rest = [] ∧ ∃ n', c.tail.length ≤ n' ∧
      statements d n (q.append (p.shift c.ids)) (c.embed s)
        = statements d n' (q.append ((statements d m p s).1.shift c.ids)) (c.embed (statements d m p s).2) := by
  have hlength : (c.embed s).rest.length = s.rest.length + c.tail.length := length_append
  induction m generalizing n p s with
  | zero =>
    have hnil : s.rest = [] := length_eq_zero_iff.mp (by omega)
    exact ⟨hnil, n, by omega, rfl⟩
  | succ m ih =>
    cases hrest : s.rest with
    | nil =>
      rw [statements_of_nil d _ p hrest]
      exact ⟨hrest, n, by omega, rfl⟩
    | cons token rest =>
      obtain ⟨hguard, hbodied, hgood'⟩ := h p s token rest hgood hrest
      have hless := length_round (d := d) (p := p) hrest
      have hlength' : (c.embed (round d token p s).2).rest.length = (round d token p s).2.rest.length + c.tail.length :=
        length_append
      obtain ⟨n, rfl⟩ : ∃ k, n = k + 1 := ⟨n - 1, by omega⟩
      have hrest' : (c.embed s).rest = token :: (rest ++ c.tail) := by simp [embed, hrest]
      rw [statements_of_cons d m p hrest, statements_of_cons d n _ hrest', round_embed hrest hguard hbodied]
      exact ih hgood' (by omega) (by omega) hlength'

/-- Where nothing comes after, every round reads alike. -/
theorem passable_of_tail_nil (h : c.tail = []) (d : Int) : Passable c d fun _ _ => True := by
  intro p s token rest _ _
  refine ⟨⟨Or.inl h, fun t _ _ _ _ _ => stops_of_tail_nil h t⟩, fun _ _ _ _ _ _ => ?_, trivial⟩
  exact ⟨Or.inl h, fun _ => stops_of_tail_nil h _, fun _ _ _ _ => stops_of_tail_nil h _⟩

/-- Rounds on what is left of balanced tokens before a semicolon read alike. -/
theorem passable_of_balanced (c : Surroundings) (d : Int) (h : Balanced ts) (hsemicolon : semicolon.isMark ";") :
    Passable c d fun _ s => s.rest <:+ ts ++ [semicolon] := by
  intro p s token rest hs hrest
  have hne : s.rest ≠ [] := by simp [hrest]
  have hclosed : ∃ vs, s.rest = vs ++ [semicolon] := by
    rcases suffix_concat_iff.mp hs with hnil | ⟨vs, hvs, -⟩
    · exact absurd hnil hne
    · exact ⟨vs, by simpa using hvs⟩
  have hstops {t : State} (ht : s.Extends t) (hlasts : t.rest ≠ []) : c.Stops t :=
    stops_of_balanced h hsemicolon (ht.suffix.trans hs) hlasts
  have hunbraced : s.Unbraced := by
    intro t ht
    rcases mem_append.mp (hs.subset ht) with ht | ht
    · exact h.unbraced t ht
    · obtain rfl : t = semicolon := by simpa using ht
      exact isMark_eq_false_of_isMark hsemicolon (by decide)
  refine ⟨⟨?_, ?_⟩, ?_, ?_⟩
  · obtain ⟨vs, hvs⟩ := hclosed
    exact Or.inr ⟨vs, semicolon, hvs, hsemicolon⟩
  · intro t ht hlasts _ _ _
    rcases hlasts with htail | hlasts
    · exact stops_of_tail_nil htail t
    · exact hstops ht hlasts
  · intro hname _ hequals body t hread
    obtain ⟨vs, hvs⟩ := hclosed
    -- The body stops before the semicolon, like the names and marks before it.
    have hbefore : s.Before (header s).2.2 :=
      ((State.Before.advance hrest (isMark_eq_false (by simp [hname]))).trans (.of_rest rfl)).trans
        (before_parameters s.advance.count).1
    have hadvance : s.Before (header s).2.2.advance := by
      obtain ⟨equals, rest', hrest', hoperator⟩ := exists_of_peek hequals
      exact hbefore.trans (.advance hrest' (isMark_eq_false (by simp [kind_of_isOperator hoperator])))
    have hbody : s.Before t := hadvance.trans (hread.choose_spec.before rfl (hadvance.unbraced hunbraced))
    have hleft := hbody.rest_ne_nil hvs hsemicolon
    have hstop := hstops (extends_body hread) hleft
    exact ⟨Or.inr hleft, fun _ => hstop, fun _ _ _ _ => hstop⟩
  · exact (extends_round d token p s).suffix.trans hs

/-- What derives from the grammar ends with a semicolon. -/
theorem Grammar.Statements.closed {q : Grammar.Tree} (h : Grammar.Statements n ts q) :
    ts = [] ∨ ∃ us semicolon, ts = us ++ [semicolon] ∧ semicolon.isMark ";" := by
  -- A statement ends with one, and the last of several is a statement.
  have hfront (us : List Token) {semicolon : Token} {ts : List Token} (hsemicolon : semicolon.isMark ";")
      (hts : ts = [] ∨ ∃ us semicolon, ts = us ++ [semicolon] ∧ semicolon.isMark ";") :
      ∃ vs semicolon', us ++ semicolon :: ts = vs ++ [semicolon'] ∧ semicolon'.isMark ";" := by
    rcases hts with rfl | ⟨vs, semicolon', rfl, hsemicolon'⟩
    · exact ⟨us, semicolon, rfl, hsemicolon⟩
    · exact ⟨us ++ semicolon :: vs, semicolon', by simp, hsemicolon'⟩
  induction h with
  | nil => exact Or.inl rfl
  | @importing keyword opening path closing semicolon ts p _ _ _ _ hsemicolon _ ih =>
    exact Or.inr (hfront [keyword, opening, path, closing] hsemicolon ih)
  | @declaring keyword value semicolon names ts p _ _ _ _ hsemicolon _ ih =>
    right
    have hclosed := hfront (keyword :: (names ++ [value])) hsemicolon ih
    simpa using hclosed
  | @defining ts us d p hdef _ ih =>
    cases hdef with
    | @intro _ name equals semicolon ps es params b _ _ _ _ hsemicolon =>
      right
      have hclosed := hfront (name :: (ps ++ equals :: es)) hsemicolon ih
      simpa using hclosed

/-- Rounds that report nothing read alike. -/
theorem passable_of_quiet (c : Surroundings) (d : Int) :
    Passable c d fun p s => ∃ fuel, s.rest.length ≤ fuel ∧ s.Quiet (statements d fuel p s).2 := by
  intro p s token rest hgood hrest
  obtain ⟨fuel, hfuel, hq⟩ := hgood
  obtain ⟨q, hder, -⟩ := derives_of_statements hfuel hq
  have hclosed := Grammar.Statements.closed hder
  obtain ⟨fuel, rfl⟩ : ∃ k, fuel = k + 1 := ⟨fuel - 1, by simp [hrest] at hfuel; omega⟩
  rw [statements, hrest] at hq
  obtain ⟨hround, hothers⟩ := hq.split (extends_round d token p s) (extends_statements d fuel _ _)
  have hless := length_round (d := d) (p := p) hrest
  refine ⟨⟨?_, ?_⟩, ?_, fuel, by omega, hothers⟩
  · rcases hclosed with hnil | hclosed
    · simp [hrest] at hnil
    · exact Or.inr hclosed
  · intro t ht _ p i hs'
    exact (hround.not_report ht ((extends_recover _).trans hs')).elim
  · intro hname hreadable hequals body t hread
    have hdefinition : (round d token p s).2 = (definition d (fuelFor s) token s).2 := by
      have hkeyword (text : String) : ¬token.isKeyword text := by simp [isKeyword_eq_false, hname]
      rw [round, if_neg (hkeyword _), if_neg (hkeyword _), if_pos hname]
    rw [hdefinition] at hround
    obtain ⟨_, hread⟩ := hread
    obtain ⟨_, hwhole⟩ := gives_definition d token s
    generalize (definition d (fuelFor s) token s).2 = u at hwhole hround
    generalize (definition d (fuelFor s) token s).1 = e at hwhole
    cases hwhole with
    | headerUnreadable hunreadable => simp [hreadable] at hunreadable
    | headerUnended _ hmissing => simp [hequals] at hmissing
    | bodyInvalid _ _ hbody hinvalid =>
      -- The body is valid, since reading it reports nothing.
      have hs := (s.extends_advance.trans (extends_header s)).trans (extends_advance _)
      obtain ⟨hq, -⟩ := hround.split (hs.trans hbody.extends) (extends_recover _)
      have hvalid := (hbody.sound (hq.split hs hbody.extends).2 rfl).valid
      simp [hinvalid] at hvalid
    | definition _ _ hbody hvalid =>
      obtain ⟨rfl, rfl⟩ := hread.unique hbody
      obtain ⟨-, hend⟩ := hround.split (extends_body ⟨_, hbody⟩) (extends_endStatement _ _)
      obtain ⟨-, semicolon, hrest', -⟩ := exists_of_endStatement hend
      refine ⟨Or.inr (by simp [hrest']), fun htrue => by simp [hvalid] at htrue, fun _ p i heq => ?_⟩
      have hend' : t.Quiet (endStatement _ t).2 := hend
      rw [heq] at hend'
      exact (hend'.not_report (.refl _) (extends_recover _)).elim

/-! ## Programs -/

/-- Only the place of the first token could depend on what was read before, and the first round takes it. -/
theorem round_last (d : Int) (p : Program) (last : Option Token) (hrest : s.rest = token :: rest) :
    round d token p { s with last := last } = round d token p s := by
  have hadvance : { s with last := last }.advance = s.advance := by
    simp only [advance, hrest]
  have hpeek : { s with last := last }.peek = s.peek := rfl
  unfold round
  split
  · rw [importStatement, hadvance, hpeek]
    rfl
  · split
    · rw [declareStatement, hadvance, hpeek]
      rfl
    · split
      · have hfuel : fuelFor { s with last := last } = fuelFor s := rfl
        rw [hfuel, fuelFor_eq, definition, definition, hadvance]
      · split
        · simp only [report, advance, hrest]
        · rename_i hbrace
          have hskip : skipStatement 0 (token :: rest) last = skipStatement 0 (token :: rest) s.last := by
            rw [skipStatement, skipStatement]
            simp [hbrace]
          simp only [report, recover, hrest, hskip]

theorem statements_last (d : Int) (n : Nat) (p : Program) (s : State) (last : Option Token) :
    ∃ last', statements d n p { s with last := last }
      = ((statements d n p s).1, { (statements d n p s).2 with last := last' }) := by
  have hcases : s.rest = [] ∨ ∃ token rest, s.rest = token :: rest := by
    cases s.rest <;> simp
  rcases hcases with hrest | ⟨token, rest, hrest⟩
  · rw [statements_of_nil d n p hrest, statements_of_nil (s := { s with last := last }) d n p hrest]
    exact ⟨last, rfl⟩
  · cases n with
    | zero => exact ⟨last, rfl⟩
    | succ n =>
      refine ⟨(statements d (n + 1) p s).2.last, ?_⟩
      rw [statements_of_cons (s := { s with last := last }) d n p hrest, round_last d p last hrest,
        ← statements_of_cons d n p hrest]

/-- Between statements, what is left is read as if it stood alone. -/
theorem statements_of_start (d : Int) (p : Program) (hdepth : s.depth = 0) (hn : s.rest.length ≤ n) :
    (statements d n p s).1 = p.append ((run d s.rest).1.shift s.lastId) ∧
      (statements d n p s).2.findings = s.findings ++ (run d s.rest).2.findings ∧
      (statements d n p s).2.oversized = (s.oversized || (run d s.rest).2.oversized) := by
  let before : Surroundings := ⟨s.lastId, [], s.findings, s.oversized, s.starved⟩
  have hstart : s = { before.embed (.start s.rest) with last := s.last } := by
    simp only [embed, before, start, append_nil, Nat.zero_add, Bool.or_false]
    rw [← hdepth]
  obtain ⟨hused, n', -, hall⟩ := statements_embed (passable_of_tail_nil (c := before) rfl d) p (p := .empty)
    (s := .start s.rest) (m := s.rest.length) (n := n) trivial (Nat.le_refl _)
    (by simpa [embed, before, start] using hn)
  rw [Program.shift_empty, Program.append_empty] at hall
  have hnil : (before.embed (run d s.rest).2).rest = [] := by
    have hrest : (run d s.rest).2.rest = [] := hused
    simp [embed, before, hrest]
  have hstop : statements d n p (before.embed (.start s.rest))
      = (p.append ((run d s.rest).1.shift s.lastId), before.embed (run d s.rest).2) :=
    hall.trans (statements_of_nil d n' _ hnil)
  obtain ⟨last, hlast⟩ := statements_last d n p (before.embed (.start s.rest)) s.last
  rw [← hstart, hstop] at hlast
  rw [hlast]
  exact ⟨rfl, rfl, rfl⟩

/-- Statements after which all rounds read alike are read first, and what follows as if it stood alone. -/
theorem run_append {us : List Token} (h : Passable ⟨0, us, [], false, false⟩ d good) (hgood : good .empty (.start ts)) :
    (run d (ts ++ us)).1 = (run d ts).1.append ((run d us).1.shift (run d ts).2.lastId) ∧
      (run d (ts ++ us)).2.findings = (run d ts).2.findings ++ (run d us).2.findings ∧
      (run d (ts ++ us)).2.oversized = ((run d ts).2.oversized || (run d us).2.oversized) := by
  obtain ⟨hused, n, hn, hfirst⟩ := statements_embed h .empty hgood (Nat.le_refl ts.length)
    (Nat.le_refl (ts ++ us).length)
  rw [Program.shift_empty, Program.append_empty, Program.empty_append, Program.shift_zero] at hfirst
  have hrun : run d (ts ++ us) = statements d n (run d ts).1 (embed ⟨0, us, [], false, false⟩ (run d ts).2) := hfirst
  have hdepth : (run d ts).2.depth = 0 := (extends_statements d ts.length .empty (.start ts)).depth
  have hrest : (embed ⟨0, us, [], false, false⟩ (run d ts).2).rest = us := by
    have hrest : (run d ts).2.rest = [] := hused
    simp [embed, hrest]
  have hafter := statements_of_start d (n := n) (run d ts).1 (s := embed ⟨0, us, [], false, false⟩ (run d ts).2) hdepth
    (hrest.symm ▸ hn)
  rw [hrest, ← hrun] at hafter
  simpa [embed] using hafter

end Patchbay.Parser

namespace Patchbay.Program

open Patchbay.Parser

/-- What is read first, then what is read later with numbers raised by `k`. -/
def joined (k : Nat) (first later : Program × List Finding) : Program × List Finding :=
  (first.1.append (later.1.shift k), first.2 ++ later.2)

theorem parse_of_run_append {d : Int} {ts us : List Token} {good : Program → State → Prop}
    (h : Passable ⟨0, us, [], false, false⟩ d good) (hgood : good .empty (.start ts)) :
    Program.parse (ts ++ us) d
      = (Program.parse ts d).bind fun first => (Program.parse us d).map (joined (run d ts).2.lastId first) := by
  obtain ⟨hprogram, hfindings, hoversized⟩ := run_append h hgood
  unfold Program.parse
  dsimp only
  rw [hprogram, hfindings, hoversized]
  cases (run d ts).2.oversized with
  | true => rfl
  | false =>
    cases (run d us).2.oversized with
    | true => rfl
    | false => rfl

/-- One statement does not hide the next. Let some tokens be read without a finding, or be balanced tokens with a
semicolon after them. Then these tokens and any others behind them are read as the ones and then the others, with
all numbers of the others raised by the same amount, and the same places, ends and flags; and
reading them fails only at a number that is too large. -/
theorem parse_append (ts : List Token) (d : Int)
    (h : (∃ p, Program.parse ts d = .ok (p, [])) ∨
      ∃ us semicolon, ts = us ++ [semicolon] ∧ Balanced us ∧ semicolon.isMark ";" = true) :
    ∃ k, ∀ us : List Token,
      (Program.parse (ts ++ us) d
          = (Program.parse ts d).bind fun first => (Program.parse us d).map (joined k first)) ∧
        ((∀ t ∈ ts ++ us, t.kind = .number → (Number.ofNumeral? t.text.toList).isSome = true) →
          ∃ read, Program.parse (ts ++ us) d = .ok read) := by
  refine ⟨(run d ts).2.lastId, fun us => ⟨?_, fun hnumbers => ⟨_, parse_eq_ok d hnumbers⟩⟩⟩
  rcases h with ⟨p, hparse⟩ | ⟨vs, semicolon, rfl, hbalanced, hsemicolon⟩
  · refine parse_of_run_append (passable_of_quiet _ d) ⟨ts.length, Nat.le_refl _, ?_⟩
    obtain ⟨hover, -, hfindings⟩ := run_of_parse hparse
    exact ⟨hfindings, hover⟩
  · exact parse_of_run_append (passable_of_balanced _ d hbalanced hsemicolon) (suffix_refl _)

/-- The tokens of `x = (a b)` and, on the next line, `y = 1;`: the parenthesis cannot be read as a box, and recovery
from inside it skips the second line too. -/
def brokenTokens : List Token :=
  [⟨.identifier, "x", ⟨1, 1⟩, ⟨1, 2⟩⟩, ⟨.operator, "=", ⟨1, 3⟩, ⟨1, 4⟩⟩, ⟨.punctuation, "(", ⟨1, 5⟩, ⟨1, 6⟩⟩,
    ⟨.identifier, "a", ⟨1, 6⟩, ⟨1, 7⟩⟩, ⟨.identifier, "b", ⟨1, 8⟩, ⟨1, 9⟩⟩, ⟨.punctuation, ")", ⟨1, 9⟩, ⟨1, 10⟩⟩,
    ⟨.identifier, "y", ⟨2, 1⟩, ⟨2, 2⟩⟩, ⟨.operator, "=", ⟨2, 3⟩, ⟨2, 4⟩⟩, ⟨.number, "1", ⟨2, 5⟩, ⟨2, 6⟩⟩]

theorem parse_append_broken :
    Balanced brokenTokens ∧ ∃ k, ∀ us : List Token,
      (Program.parse (brokenTokens ++ [⟨.punctuation, ";", ⟨2, 6⟩, ⟨2, 7⟩⟩] ++ us) 100
          = (Program.parse (brokenTokens ++ [⟨.punctuation, ";", ⟨2, 6⟩, ⟨2, 7⟩⟩]) 100).bind fun first =>
            (Program.parse us 100).map (joined k first)) ∧
        ((∀ t ∈ brokenTokens ++ [⟨.punctuation, ";", ⟨2, 6⟩, ⟨2, 7⟩⟩] ++ us,
            t.kind = .number → (Number.ofNumeral? t.text.toList).isSome = true) →
          ∃ read, Program.parse (brokenTokens ++ [⟨.punctuation, ";", ⟨2, 6⟩, ⟨2, 7⟩⟩] ++ us) 100 = .ok read) := by
  have hplain {t : Token} (ht : t.kind ≠ .punctuation) :
      ∀ mark ∈ ["(", ")", ";", "\x7b", "\x7d"], t.isMark mark = false := fun _ _ => isMark_eq_false ht
  have hinner : Balanced [⟨.identifier, "a", ⟨1, 6⟩, ⟨1, 7⟩⟩, ⟨.identifier, "b", ⟨1, 8⟩, ⟨1, 9⟩⟩] :=
    .token (hplain (by decide)) (.token (hplain (by decide)) .nil)
  have hline : Balanced [⟨.identifier, "y", ⟨2, 1⟩, ⟨2, 2⟩⟩, ⟨.operator, "=", ⟨2, 3⟩, ⟨2, 4⟩⟩,
      ⟨.number, "1", ⟨2, 5⟩, ⟨2, 6⟩⟩] :=
    .token (hplain (by decide)) (.token (hplain (by decide)) (.token (hplain (by decide)) .nil))
  have hbalanced : Balanced brokenTokens :=
    .token (hplain (by decide)) (.token (hplain (by decide)) (.group rfl hinner rfl hline))
  exact ⟨hbalanced, parse_append _ 100 (Or.inr ⟨brokenTokens, _, rfl, hbalanced, rfl⟩)⟩

end Patchbay.Program
