import Patchbay.Program.Parser

/-!
# Reading only moves forward

`State.Extends s t` says that `t` can come after `s`: tokens are only taken off the front, findings are only
added at the end, and are about grammar, nodes are numbered upwards, as many expressions are open as before, an
oversized number is noted only if there is one and stays noted, and the fuel does not run out. Every function that reads
leads from a state to one that extends it.
-/

open List

namespace Patchbay.Parser

open State

/-! ## Fields of updated states -/

variable {s t u : State} {token : Token} {rest : List Token}

namespace State

@[simp] theorem rest_advance (s : State) : s.advance.rest = s.rest.tail := by
  unfold advance
  cases h : s.rest <;> simp [h]

theorem rest_advance_of_rest {t : Token} (h : s.rest = t :: rest) : s.advance.rest = rest := by
  rw [rest_advance, h, tail_cons]

variable (s : State)

@[simp] theorem depth_advance : s.advance.depth = s.depth := by
  unfold advance
  cases s.rest <;> rfl

@[simp] theorem findings_advance : s.advance.findings = s.findings := by
  unfold advance
  cases s.rest <;> rfl

@[simp] theorem oversized_advance : s.advance.oversized = s.oversized := by
  unfold advance
  cases s.rest <;> rfl

@[simp] theorem starved_advance : s.advance.starved = s.starved := by
  unfold advance
  cases s.rest <;> rfl

@[simp] theorem lastId_advance : s.advance.lastId = s.lastId := by
  unfold advance
  cases s.rest <;> rfl

@[simp] theorem rest_count : s.count.rest = s.rest := rfl
@[simp] theorem lastId_count : s.count.lastId = s.lastId + 1 := rfl
@[simp] theorem depth_count : s.count.depth = s.depth := rfl
@[simp] theorem findings_count : s.count.findings = s.findings := rfl
@[simp] theorem oversized_count : s.count.oversized = s.oversized := rfl

@[simp] theorem rest_reportNext (i : Issue) : (s.reportNext i).rest = s.rest := rfl
@[simp] theorem depth_reportNext (i : Issue) : (s.reportNext i).depth = s.depth := rfl

@[simp] theorem findings_report (p : Position) (i : Issue) : (s.report p i).findings = s.findings ++ [⟨p, i⟩] := rfl

@[simp] theorem findings_reportNext (i : Issue) :
    (s.reportNext i).findings = s.findings ++ [⟨s.place s.peek, i⟩] := rfl

@[simp] theorem invalid_newMark (t : Option Token) : (s.newMark t).invalid = false := rfl

@[simp] theorem invalidBox_snd (t : Option Token) : (s.invalidBox t).2 = s.count := rfl

@[simp] theorem invalidBox_invalid (t : Option Token) : (s.invalidBox t).1.invalid := rfl

end State

/-! ## Taking tokens -/

/-- Tokens were taken off the front, and the last one taken is remembered. -/
def Took (ts : List Token) (last : Option Token) (us : List Token) (last' : Option Token) : Prop :=
  ∃ taken, ts = taken ++ us ∧ last' = taken.getLast?.or last

namespace Took

variable {ts us vs : List Token} {last last' last'' : Option Token}

theorem refl (ts : List Token) (last : Option Token) : Took ts last ts last := ⟨[], rfl, rfl⟩

theorem cons {t : Token} (h : Took ts (some t) us last') : Took (t :: ts) last us last' := by
  obtain ⟨taken, rfl, rfl⟩ := h
  refine ⟨t :: taken, rfl, ?_⟩
  cases taken with
  | nil => rfl
  | cons u taken => simp [getLast?_cons]

theorem one (t : Token) (ts : List Token) (last : Option Token) : Took (t :: ts) last ts (some t) := (refl ts _).cons

theorem trans (h : Took ts last us last') (h' : Took us last' vs last'') : Took ts last vs last'' := by
  obtain ⟨taken, rfl, rfl⟩ := h
  obtain ⟨taken', rfl, rfl⟩ := h'
  exact ⟨taken ++ taken', by simp, by rw [getLast?_append, Option.or_assoc]⟩

theorem suffix (h : Took ts last us last') : us <:+ ts := by
  obtain ⟨taken, rfl, -⟩ := h
  exact suffix_append taken us

end Took

/-! ## Later states -/

/-- The numbers still to be read are not too large for a double. -/
def State.Convertible (s : State) : Prop :=
  ∀ t ∈ s.rest, t.kind = .number → (Number.ofNumeral? t.text.toList).isSome = true

/-- The second state can come after the first one. -/
structure State.Extends (s t : State) : Prop where
  took : Took s.rest s.last t.rest t.last
  depth : t.depth = s.depth
  counted : s.lastId ≤ t.lastId
  findings : s.findings <+: t.findings
  grammatical : ∀ f ∈ t.findings, f ∈ s.findings ∨ f.issue.kind = .grammar
  oversized : s.oversized = true → t.oversized = true
  convertible : s.Convertible → t.oversized = s.oversized
  starved : t.starved = s.starved

namespace State.Extends

/-- A state in which at most tokens were taken off the front. -/
theorem of_took {last : Option Token} (h : Took s.rest s.last rest last) :
    s.Extends { s with rest := rest, last := last } :=
  ⟨h, rfl, Nat.le_refl _, prefix_refl _, fun _ => .inl, id, fun _ => rfl, rfl⟩

theorem refl (s : State) : s.Extends s := of_took (.refl s.rest s.last)

variable (h : s.Extends t)

include h

theorem suffix : t.rest <:+ s.rest := h.took.suffix

theorem convertible_right (hs : s.Convertible) : t.Convertible :=
  fun token htoken => hs token (h.suffix.subset htoken)

theorem trans (h' : t.Extends u) : s.Extends u :=
  ⟨h.took.trans h'.took, h'.depth.trans h.depth, Nat.le_trans h.counted h'.counted,
    h.findings.trans h'.findings, fun f hf => (h'.grammatical f hf).elim (h.grammatical f) .inr,
    fun hs => h'.oversized (h.oversized hs),
    fun hs => (h'.convertible (h.convertible_right hs)).trans (h.convertible hs), h'.starved.trans h.starved⟩

theorem length_le : t.rest.length ≤ s.rest.length :=
  h.suffix.length_le

/-- If the last of three states has no new finding, neither has the one in between. -/
theorem findings_eq (h' : t.Extends u) (hu : u.findings = s.findings) :
    t.findings = s.findings ∧ u.findings = t.findings := by
  have hlen : t.findings.length ≤ s.findings.length := hu ▸ h'.findings.length_le
  have ht : s.findings = t.findings := h.findings.eq_of_length_le hlen
  exact ⟨ht.symm, hu.trans ht⟩

theorem oversized_eq_false (ht : t.oversized = false) : s.oversized = false := by
  cases hs : s.oversized with
  | false => rfl
  | true => simp [h.oversized hs] at ht

end State.Extends

namespace State

theorem extends_advance (s : State) : s.Extends s.advance := by
  unfold advance
  split
  · exact .refl s
  · rename_i token rest hrest
    exact .of_took (hrest ▸ .one token rest s.last)

theorem extends_count (s : State) : s.Extends s.count :=
  ⟨.refl _ _, rfl, Nat.le_succ _, prefix_refl _, fun _ => .inl, id, fun _ => rfl, rfl⟩

theorem extends_report (s : State) (p : Position) (i : Issue) (hi : i.kind = .grammar) : s.Extends (s.report p i) := by
  refine ⟨.refl _ _, rfl, Nat.le_refl _, prefix_append _ _, ?_, id, fun _ => rfl, rfl⟩
  intro f hf
  rcases mem_append.mp hf with hf | hf
  · exact .inl hf
  · exact .inr (mem_singleton.mp hf ▸ hi)

theorem extends_reportNext (s : State) (i : Issue) (hi : i.kind = .grammar) : s.Extends (s.reportNext i) :=
  s.extends_report _ i hi

end State

/-! ## Recovery and statements without boxes -/

theorem took_skipStatement (depth : Nat) (ts : List Token) (last : Option Token) :
    Took ts last (skipStatement depth ts last).1 (skipStatement depth ts last).2 := by
  induction ts generalizing depth last with
  | nil => exact .refl _ _
  | cons t ts ih =>
    rw [skipStatement]
    split
    · exact (ih _ _).cons
    · split
      · exact (ih _ _).cons
      · split
        · split
          · exact .refl _ _
          · exact (ih _ _).cons
        · split
          · exact .one t ts last
          · exact (ih _ _).cons

theorem State.extends_recover (s : State) : s.Extends s.recover := .of_took (took_skipStatement 0 s.rest s.last)

theorem extends_endStatement (what : String) (s : State) : s.Extends (endStatement what s).2 := by
  unfold endStatement
  split
  · exact s.extends_report _ _ rfl
  · split
    · exact s.extends_advance
    · split
      · exact (s.extends_report _ _ rfl).trans (extends_recover _)
      · dsimp only
        split
        · exact s.extends_report _ _ rfl
        · exact (s.extends_report _ _ rfl).trans (extends_recover _)

theorem took_parametersFrom (names : List String) (ts : List Token) (last : Option Token) :
    Took ts last (parametersFrom names ts last).rest (parametersFrom names ts last).last := by
  fun_induction parametersFrom names ts last with
  | case1 => exact .refl _ _
  | case2 => exact .one _ _ _
  | case3 => exact .refl _ _
  | case4 => exact .refl _ _
  | case5 names t u rest last ht hu ih => exact ih.cons.cons
  | case6 names t u rest last ht hu hu' => exact (Took.one u rest _).cons
  | case7 names t u rest last ht hu hu' => exact .one t _ _

theorem parametersFrom_grammatical (names : List String) (ts : List Token) (last : Option Token) {i : Issue}
    (h : (parametersFrom names ts last).issue = some i) : i.kind = .grammar := by
  fun_induction parametersFrom names ts last with
  | case1 | case2 | case3 | case4 => exact Option.some.inj h ▸ rfl
  | case5 names t u rest last ht hu ih => exact ih h
  | case6 => simp at h
  | case7 => exact Option.some.inj h ▸ rfl

theorem extends_parameters (s : State) : s.Extends (parameters s).2.2 := by
  unfold parameters
  split
  · exact .refl s
  · have hread := s.extends_advance.trans
      (.of_took (took_parametersFrom [] s.advance.rest s.advance.last))
    dsimp only
    split
    · exact hread
    · rename_i issue hissue
      exact hread.trans (extends_reportNext _ _ (parametersFrom_grammatical _ _ _ hissue))

theorem extends_foldl_advance (names : List Token) (s : State) : s.Extends (names.foldl (fun s _ => s.advance) s) := by
  induction names generalizing s with
  | nil => exact .refl s
  | cons _ names ih => exact s.extends_advance.trans (ih s.advance)

theorem State.extends_failed (s : State) (i : Issue) (hi : i.kind = .grammar) : s.Extends (s.reportNext i).recover :=
  (s.extends_reportNext i hi).trans (extends_recover _)

theorem advance_extends_importStatement (s : State) : s.advance.Extends (importStatement s).2 := by
  have h₂ := s.advance.extends_advance
  have h₃ := h₂.trans (extends_advance _)
  unfold importStatement
  dsimp only
  split
  · exact extends_failed _ _ rfl
  · split
    · exact h₂.trans (extends_failed _ _ rfl)
    · split
      · exact h₂.trans (extends_failed _ _ rfl)
      · refine State.Extends.trans ?_ (extends_count _)
        split
        · exact (h₃.trans (extends_advance _)).trans (extends_endStatement _ _)
        · exact h₃.trans (extends_failed _ _ rfl)

theorem extends_importStatement (s : State) : s.Extends (importStatement s).2 :=
  s.extends_advance.trans (advance_extends_importStatement s)

theorem advance_extends_declareStatement (s : State) : s.advance.Extends (declareStatement s).2 := by
  have h := extends_foldl_advance (s.advance.rest.takeWhile (·.kind == .identifier)) s.advance
  unfold declareStatement
  dsimp only
  split
  · exact h.trans (extends_failed _ _ rfl)
  · split
    · exact h.trans (extends_failed _ _ rfl)
    · exact ((h.trans (extends_advance _)).trans (extends_endStatement _ _)).trans (extends_count _)

theorem extends_declareStatement (s : State) : s.Extends (declareStatement s).2 :=
  s.extends_advance.trans (advance_extends_declareStatement s)

/-! ## Boxes -/

theorem extends_arithmeticBox (token : Token) (left right : Box) (s : State) :
    s.Extends (arithmeticBox token left right s).2 :=
  (s.extends_count.trans (extends_count _)).trans (extends_count _)

theorem extends_prime (read : Box × State) (token : Token) : read.2.Extends (prime read token).2 :=
  (read.2.extends_advance.trans (extends_count _)).trans (extends_count _)

theorem extends_primes (box : Box) (s : State) : s.Extends (primes box s).2 := by
  have hfold (ts : List Token) (read : Box × State) : read.2.Extends (ts.foldl prime read).2 := by
    induction ts generalizing read with
    | nil => exact .refl _
    | cons t ts ih => exact (extends_prime read t).trans (ih (prime read t))
  unfold primes
  split
  · exact .refl s
  · exact hfold _ (box, s)

/-- Primes are read one at a time. -/
theorem primes_of_prime {box : Box} {t : Token} (hvalid : box.invalid = false) (hrest : s.rest = t :: rest)
    (ht : t.isOperator "'") : primes box s = primes (prime (box, s) t).1 (prime (box, s) t).2 := by
  have hvalid' : (prime (box, s) t).1.invalid = false := rfl
  have hrest' : (prime (box, s) t).2.rest = rest := by simp [prime, hrest]
  simp [primes, hvalid, hvalid', hrest, hrest', ht]

theorem primes_of_stop (box : Box) (h : ∀ t ∈ s.rest.head?, t.isOperator "'" = false) : primes box s = (box, s) := by
  have htake : s.rest.takeWhile (·.isOperator "'") = [] := by
    cases hrest : s.rest with
    | nil => rfl
    | cons t rest =>
      have ht := h t (by simp [hrest])
      simp [ht]
  simp [primes, htake]

/-- Only a number that is too large is noted. -/
theorem extends_numberOf (h : s.Extends t) (hmem : token ∈ s.rest) (hkind : token.kind = .number) :
    s.Extends (t.numberOf token).2 := by
  unfold numberOf
  split
  · exact h
  · rename_i hnone
    refine ⟨h.took, h.depth, h.counted, h.findings, h.grammatical, fun _ => rfl, fun hs => ?_, h.starved⟩
    have hsome := hs token hmem hkind
    simp [hnone] at hsome

theorem extends_leaf (hrest : s.rest = token :: rest) : s.Extends (leaf token s).2 := by
  unfold leaf
  split
  · rename_i hkind
    have hmem : token ∈ s.rest := by simp [hrest]
    exact (extends_numberOf s.extends_advance hmem hkind).trans (extends_count _)
  · exact s.extends_advance.trans (extends_count _)
  · exact s.extends_advance.trans (extends_count _)

theorem extends_negativeNumber {sign : Token} (hrest : s.rest = sign :: token :: rest) (hkind : token.kind = .number) :
    s.Extends (negativeNumber sign token s).2 := by
  have hmem : token ∈ s.rest := by simp [hrest]
  exact (extends_numberOf (s.extends_advance.trans (extends_advance _)) hmem hkind).trans
    (extends_count _)

theorem State.extends_invalidBox (s : State) (i : Issue) (t : Option Token)
    (hi : i.kind = .grammar) : s.Extends ((s.reportNext i).invalidBox t).2 :=
  (s.extends_reportNext i hi).trans (extends_count _)

end Patchbay.Parser
