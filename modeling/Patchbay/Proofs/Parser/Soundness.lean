import Patchbay.Proofs.Parser.Grammar
import Patchbay.Proofs.Parser.Reading

/-!
# What is read without a finding derives from the grammar

If a job adds no finding and meets no oversized number, then what it gives is valid, and the tokens it took derive the
tree of that. A job that goes on from a box already read adds its tokens to those of the box.

The loops over operators carry the tier of what was read on their left. After an operator of a tier
was read with its right operand, no operator of a tighter tier can follow.
-/

open List

namespace Patchbay.Parser

open Grammar State

/-! ## Quiet steps -/

/-- How many expressions may still be opened inside each other. -/
def State.levels (d : Int) (s : State) : Nat := (d - s.depth).toNat

variable {box : Box} {d : Int} {m n : Nat} {i : Issue} {s t u : State} {rest : List Token}

theorem State.Extends.levels (h : s.Extends t) (d : Int) : t.levels d = s.levels d := by
  simp [State.levels, h.depth]

/-- Between two states nothing was reported, and no number was oversized. -/
structure State.Quiet (s t : State) : Prop where
  findings : t.findings = s.findings
  oversized : t.oversized = false

/-- A quiet step is quiet in both its parts. -/
theorem State.Quiet.split (h : s.Quiet u) (hst : s.Extends t) (htu : t.Extends u) : s.Quiet t ∧ t.Quiet u := by
  obtain ⟨ht, hu⟩ := hst.findings_eq htu h.findings
  exact ⟨⟨ht, htu.oversized_eq_false h.oversized⟩, ⟨hu, h.oversized⟩⟩

/-- A step in which something is reported is not quiet. -/
theorem State.Quiet.not_report {p : Position} (h : s.Quiet u) (hst : s.Extends t) (htu : (t.report p i).Extends u) :
    False := by
  have hlen := htu.findings.length_le
  have hst' := hst.findings.length_le
  rw [h.findings] at hlen
  simp only [findings_report, length_append, length_singleton] at hlen
  omega

theorem State.Quiet.not_reportNext (h : s.Quiet u) (hst : s.Extends t) (htu : (t.reportNext i).Extends u) : False :=
  h.not_report hst htu

/-! ## What a quiet step reads -/

/-- From the tokens `rest` some were taken that derive the tree of a valid box. -/
structure Reads (derives : List Token → Phrase → Prop) (rest : List Token) (read : Box × State) : Prop where
  valid : read.1.invalid = false
  tokens : ∃ ts, rest = ts ++ read.2.rest ∧ derives ts read.1.phrase

variable {derives : List Token → Phrase → Prop} {read : Box × State} {token : Token}

theorem Reads.none (hvalid : box.invalid = false) (h : derives [] box.phrase) :
    Reads derives s.rest (box, s) := ⟨hvalid, [], rfl, h⟩

/-- What is read next goes on from the tokens of what was read first. -/
theorem Reads.andThen {first second : List Token → Phrase → Prop} (h : Reads first rest (box, t))
    (hnext : ∀ ts, first ts box.phrase → Reads (fun us b => second (ts ++ us) b) t.rest read) :
    Reads second rest read := by
  obtain ⟨-, ts, hts, hder⟩ := h
  obtain ⟨hvalid, us, hus, hder'⟩ := hnext ts hder
  exact ⟨hvalid, ts ++ us, by rw [hts, hus, List.append_assoc], hder'⟩

/-- The token that comes next is the first of those that derive. -/
theorem Reads.cons {s : State} {rest : List Token}
    (hrest : s.rest = token :: rest)
    (h : Reads (fun ts b => derives (token :: ts) b) s.advance.rest read) : Reads derives s.rest read := by
  obtain ⟨hvalid, ts, hts, hder⟩ := h
  rw [rest_advance_of_rest hrest] at hts
  exact ⟨hvalid, token :: ts, by rw [hrest, hts, cons_append], hder⟩

theorem exists_of_peek {p : Token → Bool} (h : s.peek.any p) : ∃ t rest, s.rest = t :: rest ∧ p t := by
  cases hrest : s.rest with
  | nil => simp [peek, hrest] at h
  | cons t rest => exact ⟨t, rest, rfl, by simpa [peek, hrest] using h⟩

theorem exists_of_atMark {text : String} (h : s.atMark text) :
    ∃ t rest, s.rest = t :: rest ∧ t.isMark text := exists_of_peek h

theorem exists_of_endStatement {what : String} (hq : s.Quiet (endStatement what s).2) :
    (endStatement what s).1 ∧
      ∃ t, s.rest = t :: (endStatement what s).2.rest ∧ t.isMark ";" := by
  unfold endStatement at hq ⊢
  cases hrest : s.rest with
  | nil =>
    rw [hrest] at hq
    exact (hq.not_report (.refl s) (.refl _)).elim
  | cons token rest =>
    rw [hrest] at hq
    dsimp only at hq ⊢
    by_cases hsemicolon : token.isMark ";"
    · rw [if_pos hsemicolon]
      exact ⟨rfl, token, by simp [hrest], hsemicolon⟩
    · rw [if_neg hsemicolon] at hq
      split at hq
      · exact (hq.not_report (.refl s) (extends_recover _)).elim
      · split at hq
        · exact (hq.not_report (.refl s) (.refl _)).elim
        · exact (hq.not_report (.refl s) (extends_recover _)).elim

/-- Primes after a box that was read are read with it. -/
theorem reads_primes (box : Box) (s : State) (ts : List Token) (hvalid : box.invalid = false)
    (hder : Postfix n ts box.phrase) : Reads (fun us b => Postfix n (ts ++ us) b) s.rest (primes box s) := by
  have hstop : Reads (fun us b => Postfix n (ts ++ us) b) s.rest (box, s) :=
    .none hvalid (by rwa [append_nil])
  generalize hrest : s.rest = rest
  induction rest generalizing box s ts with
  | nil => rwa [primes_of_stop box (by simp [hrest]), ← hrest]
  | cons t rest ih =>
    rw [← hrest]
    by_cases ht : t.isOperator "'"
    · rw [primes_of_prime hvalid hrest ht]
      have hder' : Postfix n (ts ++ [t]) (prime (box, s) t).1.phrase := .prime hder ht
      have hrest' : (prime (box, s) t).2.rest = rest := by simp [prime, hrest]
      refine .cons hrest ?_
      rw [rest_advance_of_rest hrest]
      have hread := ih (prime (box, s) t).1 (prime (box, s) t).2 (ts ++ [t]) rfl hder'
        (.none rfl (by rwa [append_nil])) hrest'
      simpa using hread
    · rwa [primes_of_stop box (by simpa [hrest] using ht)]

/-- A valid box for one token is read by `leaf`, unless the token is an oversized number. -/
theorem reads_leaf {t : Token} (hrest : s.rest = t :: rest)
    (hder : t.kind ≠ .number → t.kind ≠ .string → Primary m [t] (.name t.text)) (hq : s.Quiet (leaf t s).2) :
    Reads (Primary m) s.rest (leaf t s) := by
  unfold leaf at hq ⊢
  split at hq
  · rename_i hkind
    unfold numberOf at hq ⊢
    split at hq
    · rename_i value hvalue
      exact ⟨rfl, [t], by simp [hrest], .number hkind hvalue⟩
    · exact absurd hq.oversized (by simp)
  · rename_i hkind
    exact ⟨rfl, [t], by simp [hrest], .string hkind⟩
  · rename_i hnumber hstring
    exact ⟨rfl, [t], by simp [hrest], hder hnumber hstring⟩

theorem reads_negativeNumber {sign t : Token} (hrest : s.rest = sign :: t :: rest) (hsign : sign.isOperator "-")
    (ht : t.kind = .number) (hq : s.Quiet (negativeNumber sign t s).2) :
    Reads (Primary m) s.rest (negativeNumber sign t s) := by
  unfold negativeNumber numberOf at hq ⊢
  dsimp only at hq ⊢
  split at hq
  · rename_i value hvalue
    exact ⟨rfl, [sign, t], by simp [hrest], .negative hsign ht hvalue⟩
  · exact absurd hq.oversized (by simp)

/-- Parameters without an issue derive, with the closing parenthesis after them. -/
theorem derives_of_parametersFrom {names : List String} {ts : List Token} {last : Option Token}
    (h : (parametersFrom names ts last).issue = none) :
    ∃ us closing params, ts = us ++ closing :: (parametersFrom names ts last).rest ∧
      closing.isMark ")" ∧ Grammar.Parameters us params ∧
      (parametersFrom names ts last).names = names ++ params := by
  fun_induction parametersFrom names ts last with
  | case1 => simp at h
  | case2 => simp at h
  | case3 => simp at h
  | case4 => simp at h
  | case5 names t u rest last ht hu ih =>
    have ht' : IsParameter t := (isParameter_iff t).mp (by simpa using ht)
    obtain ⟨us, closing, params, hus, hclosing, hder, hnames⟩ := ih h
    refine ⟨t :: u :: us, closing, t.text :: params, ?_, hclosing, .more ht' hu hder, ?_⟩
    · rw [cons_append, cons_append, ← hus]
    · rw [hnames, List.append_assoc, singleton_append]
  | case6 names t u rest last ht hu hclosing =>
    have ht' : IsParameter t := (isParameter_iff t).mp (by simpa using ht)
    exact ⟨[t], u, [t.text], rfl, hclosing, .last ht', rfl⟩
  | case7 => simp at h

theorem derives_of_parameters {s : State} (hq : s.Quiet (parameters s).2.2) :
    (parameters s).2.1 ∧
      ∃ us, s.rest = us ++ (parameters s).2.2.rest ∧ ParameterList us (parameters s).1 := by
  unfold parameters at hq ⊢
  by_cases hopen : s.atMark "("
  · rw [if_neg (by simp [hopen])] at hq ⊢
    obtain ⟨opening, rest, hrest, hopening⟩ := exists_of_atMark hopen
    dsimp only at hq ⊢
    have htook := took_parametersFrom [] s.advance.rest s.advance.last
    have hread := @derives_of_parametersFrom [] s.advance.rest s.advance.last
    generalize parametersFrom [] s.advance.rest s.advance.last = read at hq htook hread ⊢
    cases hissue : read.issue with
    | none =>
      obtain ⟨us, closing, params, hus, hclosing, hder, hnames⟩ := hread hissue
      rw [hnames]
      refine ⟨rfl, opening :: (us ++ [closing]), ?_, .some hopening hder hclosing⟩
      have hrest' : s.advance.rest = rest := by simp [hrest]
      rw [hrest, ← hrest', hus]
      simp
    | some issue =>
      rw [hissue] at hq
      refine (hq.not_reportNext ?_ (.refl _)).elim
      exact s.extends_advance.trans (.of_took htook)
  · rw [if_pos (by simp [hopen])]
    exact ⟨rfl, [], rfl, .none⟩

/-! ## Jobs -/

/-- The tokens that a quiet job took derive what it gives, where expressions may open `n` levels deep. -/
def Job.Sound (n : Nat) : (job : Job) → State → job.Result → State → Prop
  | .expression par, s, box, t => Reads (Expression n par) s.rest (box, t)
  | .blocks body, s, box, t => ∀ par ts, body.invalid = false → Expression (n + 1) par ts body.phrase →
    Reads (fun us b => Expression (n + 1) par (ts ++ us) b) s.rest (box, t)
  | .composition least par, s, box, t => least ≤ 5 →
    Reads (Composition n par least) s.rest (box, t) ∧ CompositionStops par least t.rest
  | .compositionRest least par left, s, box, t => ∀ tier ts, least ≤ tier → left.invalid = false →
    Composition n par tier ts left.phrase → CompositionStops par (tier + 1) s.rest →
    Reads (fun us b => Composition n par least (ts ++ us) b) s.rest (box, t) ∧ CompositionStops par least t.rest
  | .arithmetic least, s, box, t => least ≤ 9 →
    Reads (Arithmetic n least) s.rest (box, t) ∧ ArithmeticStops least t.rest
  | .arithmeticRest least left, s, box, t => ∀ tier ts, least ≤ tier → left.invalid = false →
    Arithmetic n tier ts left.phrase → ArithmeticStops (tier + 1) s.rest →
    Reads (fun us b => Arithmetic n least (ts ++ us) b) s.rest (box, t) ∧ ArithmeticStops least t.rest
  | .primary, s, box, t => Reads (Primary n) s.rest (box, t)
  | .arguments _ _ args, s, read, t => read.2 = true ∧ ∃ ts closing bs, s.rest = ts ++ closing :: t.rest ∧
    closing.isMark ")" = true ∧ Grammar.Arguments n ts bs ∧ Box.phrases read.1 = Box.phrases args ++ bs
  | .localDefinitions locals, s, ds, t => ∃ ts es, s.rest = ts ++ t.rest ∧ Definitions n ts es ∧
    Definition.phrases ds = Definition.phrases locals ++ es ∧ ∀ token ∈ t.rest.head?, token.isMark "\x7d" = true
  | .definition name, s, e, t => ∀ rest, s.rest = name :: rest → name.kind = .identifier →
    e.invalid = false ∧ ∃ ts, s.rest = name :: (ts ++ t.rest) ∧ Grammar.Definition n (name :: ts) e.phrase

/-- A leaf derives from its token. -/
theorem reads_leafAt (hrest : s.rest = token :: rest) (h : LeafAt token s)
    (hq : s.Quiet (leaf token s).2) : Reads (Primary n) s.rest (leaf token s) := by
  refine reads_leaf hrest (fun hnumber hstring => ?_) hq
  rcases h with ⟨hname, -⟩ | h | h | ⟨hbox, -, -⟩
  · exact .name hname
  · exact absurd h hnumber
  · exact absurd h hstring
  · rcases (isOperatorBox_iff token).mp hbox with ⟨tier, htier⟩ | hcut
    · exact .operator htier
    · exact .cut hcut

theorem CallAt.isCallable {name : Token} (h : CallAt name s) : IsCallable name := by
  rcases h.1 with hname | ⟨hbox, hcut⟩
  · exact .inl hname
  · rcases (isOperatorBox_iff name).mp hbox with htier | hcut'
    · exact .inr htier
    · simp [Token.isOperator, hcut] at hcut'

theorem levels_enter (h : (s.enter.depth : Int) ≤ d) : s.levels d = s.enter.levels d + 1 := by
  simp only [levels, enter] at *
  omega

/-- What a quiet reading took derives from the grammar. -/
theorem Reading.sound {job : Job} {r : job.Result} {b : Braces} (h : Reading d job s r t b) (hq : s.Quiet t)
    (hn : s.levels d = n) : job.Sound n s r t := by
  induction h generalizing n with
  | nested => exact absurd hq.findings (by simp [fail, leave, enter])
  | @expression _ s _ _ _ u _ _ hdeep hbox hblocks ih ih' =>
    have hq' : s.enter.Quiet u := ⟨hq.findings, hq.oversized⟩
    obtain ⟨hq₁, hq₂⟩ := hq'.split hbox.extends hblocks.extends
    rw [levels_enter hdeep] at hn
    subst hn
    have hread := (ih hq₁ rfl (by decide)).1
    have hall : Reads (Expression _ _) s.rest (_, u) :=
      hread.andThen fun ts hder => ih' hq₂ (hbox.extends.levels d) _ ts hread.valid (.composition hder)
    exact ⟨hall.valid, hall.tokens⟩
  | blocksDone => exact fun par ts hvalid hder => .none hvalid (by rwa [append_nil])
  | blockMissing => exact (hq.not_reportNext (extends_advance _) (extends_count _)).elim
  | blockUnclosed _ _ _ _ hlocals =>
    exact (hq.not_reportNext ((extends_opened _).trans hlocals.extends) (.refl _)).elim
  | @block _ s keyword _ _ t _ _ _ _ _ hrest hkeyword hopen hlocals hend hmore ih ih' =>
    intro par ts _ hder
    have hs := extends_opened s
    have hs' := (hs.trans hlocals.extends).trans t.extends_advance
    obtain ⟨hq₁, hq₂⟩ := hq.split hs' hmore.extends
    obtain ⟨-, hq₁⟩ := (hq₁.split (hs.trans hlocals.extends) t.extends_advance).1.split hs hlocals.extends
    obtain ⟨us, es, hus, hders, hphrases, hclose⟩ := ih hq₁ ((hs.levels d).trans hn)
    obtain ⟨opening, rest', hrest', hopening⟩ := exists_of_atMark hopen
    obtain ⟨closing, rest'', hrest''⟩ := exists_cons_of_ne_nil hend
    have hclosing : closing.isMark "\x7d" := hclose closing (by simp [hrest''])
    have hblock := Expression.block hder hkeyword hopening hders hclosing
    obtain ⟨hvalid, vs, hvs, hder'⟩ := ih' hq₂ ((hs'.levels d).trans hn) par
      (ts ++ keyword :: opening :: (us ++ [closing])) rfl
      (by simpa [Box.phrase, Definition.phrases] using hphrases ▸ hblock)
    refine ⟨hvalid, keyword :: opening :: (us ++ closing :: vs), ?_, by simpa using hder'⟩
    rw [rest_count] at hus
    rw [s.rest_eq_cons hrest, s.advance.rest_eq_cons hrest', hus, t.rest_eq_cons hrest'', hvs]
    simp
  | composition hleft hmore ih ih' =>
    intro hleast
    obtain ⟨hq₁, hq₂⟩ := hq.split hleft.extends hmore.extends
    have hread := (ih hq₁ hn (by decide)).1
    -- No composition operator has a tier above four.
    have hnext (ts) (hder : Arithmetic n 0 ts _) := ih' hq₂ ((hleft.extends.levels d).trans hn) 5 ts hleast hread.valid
      (.operand hder.of_zero) (fun _ _ op _ => by cases op <;> decide)
    obtain ⟨ts, -, hder⟩ := hread.tokens
    exact ⟨hread.andThen fun ts hder => (hnext ts hder).1, (hnext ts hder).2⟩
  | compositionDone h =>
    intro tier ts hleast hvalid hder _
    exact ⟨.none hvalid (by rw [append_nil]; exact hder.mono hleast), h.resolve_left (by simp [hvalid])⟩
  | @compose _ _ _ s token _ op right t _ _ _ _ _ hrest hop hleast hright hmore ih ih' =>
    intro tier ts htier hvalid hder hstops
    have hs := s.extends_advance.trans hright.extends
    obtain ⟨hq₁, hq₂⟩ := hq.split (hs.trans (extends_count _)) hmore.extends
    obtain ⟨-, hq₁⟩ := (hq₁.split hs (extends_count _)).1.split s.extends_advance hright.extends
    -- The loop stopped for operators above the tier of what it has, so this one is not above it.
    have hop_le : op.precedence ≤ tier := Nat.le_of_lt_succ (hstops token (by simp [hrest]) op hop)
    have hop_le' : op.precedence + 1 ≤ 5 := by cases op <;> decide
    obtain ⟨hread, hstops'⟩ := ih hq₁ ((s.extends_advance.levels d).trans hn) hop_le'
    have hnext (us) (hder' : Composition n _ _ us _) :=
      ih' hq₂ ((hs.levels d).trans hn) op.precedence (ts ++ token :: us)
      hleast hread.valid (.join (hder.mono hop_le) ((compositionOf?_eq_some_iff _ _ _).mp hop) hder') hstops'
    obtain ⟨us, -, hder'⟩ := hread.tokens
    refine ⟨.cons hrest (hread.andThen fun us hder' => ?_), (hnext us hder').2⟩
    simpa using (hnext us hder').1
  | @arithmetic _ _ box t _ _ _ _ hbox hmore ih ih' =>
    intro hleast
    have hleft := hbox.extends.trans (extends_primes box t)
    obtain ⟨hq₁, hq₂⟩ := hq.split hleft hmore.extends
    have hread := ih (hq₁.split hbox.extends (extends_primes box t)).1 hn
    have hprimes : Reads (Postfix n) _ (primes box t) :=
      hread.andThen fun ts hder => reads_primes box t ts hread.valid (.primary hder)
    -- No arithmetic operator has a tier above eight.
    have hstops : ArithmeticStops 10 (primes box t).2.rest := by
      intro token _ p hp
      have htier := lt_of_mem_arithmeticTier ((arithmeticOf?_eq_some_iff token p).mp hp).text
      omega
    have hnext (ts) (hder : Postfix n ts _) :=
      ih' hq₂ ((hleft.levels d).trans hn) 9 ts hleast hprimes.valid (.operand hder) hstops
    obtain ⟨ts, -, hder⟩ := hprimes.tokens
    exact ⟨hprimes.andThen fun ts hder => (hnext ts hder).1, (hnext ts hder).2⟩
  | arithmeticDone h =>
    intro tier ts hleast hvalid hder _
    exact ⟨.none hvalid (by rw [append_nil]; exact hder.mono hleast), h.resolve_left (by simp [hvalid])⟩
  | @operate _ left s token _ precedence right t _ _ _ _ _ hrest hop hleast hright hmore ih ih' =>
    intro tier ts htier hvalid hder hstops
    have hs := s.extends_advance.trans hright.extends
    have hbox := extends_arithmeticBox token left right t
    obtain ⟨hq₁, hq₂⟩ := hq.split (hs.trans hbox) hmore.extends
    obtain ⟨-, hq₁⟩ := (hq₁.split hs hbox).1.split s.extends_advance hright.extends
    have hle : precedence ≤ tier := Nat.le_of_lt_succ (hstops token (by simp [hrest]) precedence hop)
    have hoperator := (arithmeticOf?_eq_some_iff _ _).mp hop
    obtain ⟨hread, hstops'⟩ := ih hq₁ ((s.extends_advance.levels d).trans hn) (lt_of_mem_arithmeticTier hoperator.text)
    have hnext (us) (hder' : Arithmetic n _ us _) := ih' hq₂ (((hs.trans hbox).levels d).trans hn) precedence
      (ts ++ token :: us) hleast hread.valid (.join (hder.mono hle) hoperator hder') hstops'
    obtain ⟨us, -, hder'⟩ := hread.tokens
    refine ⟨.cons hrest (hread.andThen fun us hder' => ?_), (hnext us hder').2⟩
    have hread' := (hnext us hder').1
    simp only [List.append_assoc, cons_append] at hread'
    exact hread'
  | ended | unexpected => exact (hq.not_reportNext (.refl _) (extends_count _)).elim
  | leaf hrest h => exact reads_leafAt hrest h hq
  | negative hrest hsign hnumber => exact reads_negativeNumber hrest hsign hnumber hq
  | parenthesisInvalid _ _ hinner hinvalid ih =>
    -- What is read without a finding is valid, so there was one.
    have hread := ih (hq.split (extends_advance _) hinner.extends).2 rfl
    simp [hread.valid] at hinvalid
  | parenthesisUnclosed _ _ hinner =>
    exact (hq.not_reportNext ((extends_advance _).trans hinner.extends) (extends_count _)).elim
  | @parenthesis s opening _ _ t _ hrest hopen hinner _ hclose ih =>
    have hs := s.extends_advance.trans hinner.extends
    obtain ⟨-, hq₁⟩ := (hq.split hs t.extends_advance).1.split s.extends_advance hinner.extends
    obtain ⟨hvalid, ts, hts, hder⟩ := ih hq₁ ((s.extends_advance.levels d).trans hn)
    obtain ⟨closing, rest', hrest', hclosing⟩ := exists_of_atMark hclose
    refine ⟨hvalid, opening :: (ts ++ [closing]), ?_, .parentheses hopen hder hclosing⟩
    rw [s.rest_eq_cons hrest, hts, t.rest_eq_cons hrest']
    simp
  | callEmpty => exact (hq.not_reportNext (extends_opened _) (extends_advance _)).elim
  | @call s name _ args _ t _ hrest h _ hargs ih =>
    have hs := extends_opened s
    obtain ⟨hvalid, ts, closing, bs, hts, hclosing, hder, hphrases⟩ :=
      ih (hq.split hs hargs.extends).2 ((hs.levels d).trans hn)
    obtain ⟨opening, rest', hrest', hopening⟩ := exists_of_atMark h.2
    refine ⟨by simpa [Box.invalid, Box.mark] using hvalid, name :: opening :: (ts ++ [closing]), ?_, ?_⟩
    · rw [rest_count] at hts
      rw [s.rest_eq_cons hrest, s.advance.rest_eq_cons hrest', hts]
      simp
    · obtain rfl : Box.phrases args = bs := hphrases
      exact .call h.isCallable hopening hder hclosing
  | argumentInvalid hargument hinvalid ih => simp [(ih hq rfl).valid] at hinvalid
  | argumentsMalformed hargument => exact (hq.not_reportNext hargument.extends (.refl _)).elim
  | @argumentsMore _ _ args _ argument t comma _ _ _ _ _ hargument _ hrest hcomma hmore ih ih' =>
    have hs := hargument.extends.trans t.extends_advance
    obtain ⟨hq₁, hq₂⟩ := hq.split hs hmore.extends
    obtain ⟨-, ts, hts, hder⟩ := ih (hq₁.split hargument.extends t.extends_advance).1 hn
    obtain ⟨hvalid, us, closing, bs, hus, hclosing, hders, hbs⟩ := ih' hq₂ ((hs.levels d).trans hn)
    refine ⟨hvalid, ts ++ comma :: us, closing, argument.phrase :: bs, ?_, hclosing, .more hder hcomma hders, ?_⟩
    · rw [hts, t.rest_eq_cons hrest, hus]
      simp
    · simpa [Box.phrases_eq_map] using hbs
  | @argumentsEnd _ _ args _ argument t closing _ _ hargument _ hrest hclosing ih =>
    obtain ⟨-, ts, hts, hder⟩ := ih (hq.split hargument.extends t.extends_advance).1 hn
    refine ⟨rfl, ts, closing, [argument.phrase], ?_, hclosing, .last hder, by simp [Box.phrases_eq_map]⟩
    rw [hts, t.rest_eq_cons hrest]
  | localsDone h => exact ⟨[], [], rfl, .nil, (append_nil _).symm, h⟩
  | localsSkip _ _ _ hmore =>
    exact (hq.not_report (.refl _) ((extends_recover _).trans hmore.extends)).elim
  | @localsMore _ s name _ e t _ _ _ _ hrest hname hdefinition hmore ih ih' =>
    obtain ⟨hq₁, hq₂⟩ := hq.split hdefinition.extends hmore.extends
    obtain ⟨-, ts, hts, hder⟩ := ih hq₁ hn _ hrest hname
    obtain ⟨us, es, hus, hders, hphrases, hclose⟩ := ih' hq₂ ((hdefinition.extends.levels d).trans hn)
    refine ⟨name :: ts ++ us, e.phrase :: es, ?_, .cons hder hders, ?_, hclose⟩
    · rw [hts, hus]
      simp
    · simpa [Definition.phrases_eq_map] using hphrases
  | @headerUnreadable _ s hreadable =>
    obtain ⟨hq₁, -⟩ := hq.split (s.extends_advance.trans (extends_header s)) (extends_recover _)
    obtain ⟨-, hq₂⟩ := hq₁.split (s.extends_advance.trans (extends_count _)) (extends_parameters _)
    exact absurd (derives_of_parameters hq₂).1 (by simpa [header] using hreadable)
  | headerUnended =>
    exact (hq.not_reportNext ((extends_advance _).trans (extends_header _)) (extends_recover _)).elim
  | @bodyInvalid _ s _ _ _ _ _ hbody hinvalid ih =>
    have hs := (s.extends_advance.trans (extends_header s)).trans (extends_advance _)
    have hread := ih ((hq.split (hs.trans hbody.extends) (extends_recover _)).1.split hs hbody.extends).2 rfl
    simp [hread.valid] at hinvalid
  | @definition name s _ t _ _ hequals hbody _ ih =>
    intro rest hrest hname
    have hs₁ := s.extends_advance.trans (extends_count _)
    have hs₂ := s.extends_advance.trans (extends_header s)
    have hs₃ := hs₂.trans (extends_advance _)
    obtain ⟨hq₁, hq₂⟩ := hq.split (hs₃.trans hbody.extends) (extends_endStatement _ _)
    obtain ⟨hq₁, hq₃⟩ := hq₁.split hs₃ hbody.extends
    obtain ⟨-, hq₄⟩ := (hq₁.split hs₂ (extends_advance _)).1.split hs₁ (extends_parameters _)
    obtain ⟨-, us, hus, hlist⟩ := derives_of_parameters hq₄
    obtain ⟨-, ts, hts, hder⟩ := ih hq₃ ((hs₃.levels d).trans hn)
    obtain ⟨hended, semicolon, hsemicolon, hmark⟩ := exists_of_endStatement hq₂
    obtain ⟨equals, rest', hrest', hequals'⟩ := exists_of_peek hequals
    refine ⟨by simp [definitionOf, Definition.invalid, definitionEnd, hended],
      us ++ equals :: (ts ++ [semicolon]), ?_, .intro hname hlist hequals' hder hmark⟩
    have hus' : s.advance.rest = us ++ (header s).2.2.rest := hus
    rw [s.rest_eq_cons hrest, hus', (header s).2.2.rest_eq_cons hrest', hts, hsemicolon]
    simp [definitionEnd]

end Patchbay.Parser
