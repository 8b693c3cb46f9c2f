import Patchbay.Proofs.Parser.Completeness

/-!
# Expressions take no semicolon

An expression contains a semicolon only inside the braces of a block. So where no brace opens, whatever reads
boxes stops before the next semicolon, even when the boxes cannot be read.
-/

namespace Patchbay.Parser

/-! ## Going on without a semicolon -/

/-- From the first state to the second no semicolon was taken. -/
def State.Before (s t : State) : Prop := ∃ taken, s.rest = taken ++ t.rest ∧ ∀ u ∈ taken, u.isMark ";" = false

/-- No brace opens in what is left. -/
def State.Unbraced (s : State) : Prop := ∀ t ∈ s.rest, t.isMark "\x7b" = false

variable {s : State} {token : Token} {rest : List Token}

namespace State.Before

variable {s t u : State}

theorem of_rest (h : t.rest = s.rest) : s.Before t := ⟨[], h.symm, by simp⟩

theorem refl (s : State) : s.Before s := of_rest rfl

theorem trans (h : s.Before t) (h' : t.Before u) : s.Before u := by
  obtain ⟨taken, htaken, hfree⟩ := h
  obtain ⟨taken', htaken', hfree'⟩ := h'
  refine ⟨taken ++ taken', by rw [htaken, htaken', List.append_assoc], fun v hv => ?_⟩
  rcases List.mem_append.mp hv with hv | hv
  · exact hfree v hv
  · exact hfree' v hv

theorem advance (hrest : s.rest = token :: rest) (h : token.isMark ";" = false) : s.Before s.advance :=
  ⟨[token], by simp [hrest], by simpa using h⟩

theorem unbraced (h : s.Before t) (hs : s.Unbraced) : t.Unbraced := by
  obtain ⟨taken, htaken, -⟩ := h
  intro v hv
  exact hs v (by simp [htaken, hv])

/-- What ends with a semicolon is not used up. -/
theorem rest_ne_nil (h : s.Before t) {ts : List Token} {semicolon : Token} (hs : s.rest = ts ++ [semicolon])
    (hsemicolon : semicolon.isMark ";") : t.rest ≠ [] := by
  intro hnil
  obtain ⟨taken, htaken, hfree⟩ := h
  rw [hnil, List.append_nil] at htaken
  have hmem : semicolon ∈ taken := by simp [← htaken, hs]
  have hfalse := hfree semicolon hmem
  simp [hsemicolon] at hfalse

end State.Before

theorem before_primes (box : Box) (s : State) : s.Before (primes box s).2 := by
  generalize hrest : s.rest = rest
  induction rest generalizing box s with
  | nil =>
    rw [primes_of_stop box (by simp [hrest])]
    exact .refl s
  | cons t rest ih =>
    cases hinvalid : box.invalid with
    | true =>
      rw [primes, if_pos hinvalid]
      exact .refl s
    | false =>
      cases ht : t.isOperator "'" with
      | false =>
        rw [primes_of_stop box (by simp [hrest, ht])]
        exact .refl s
      | true =>
        rw [primes_of_prime hinvalid hrest ht]
        have hmark : t.isMark ";" = false := isMark_eq_false (by simp [kind_of_isOperator ht])
        have hprime : s.Before (prime (box, s) t).2 := (State.Before.advance hrest hmark).trans (.of_rest rfl)
        exact hprime.trans (ih _ _ (by simp [prime, hrest]))

theorem before_leaf (hrest : s.rest = token :: rest) (h : token.isMark ";" = false) : s.Before (leaf token s).2 := by
  refine (State.Before.advance hrest h).trans (.of_rest ?_)
  unfold leaf State.numberOf
  split
  · split <;> rfl
  · rfl
  · rfl

/-! ## Boxes -/

/-- Whether a job reads boxes rather than definitions. -/
def Job.readsBoxes : Job → Bool
  | .localDefinitions _ | .definition _ => false
  | _ => true

theorem before_opening {text : String} (h : s.atMark text) (htext : text ≠ ";") : s.Before s.advance := by
  obtain ⟨opening, rest, hrest, hopening⟩ := exists_of_atMark h
  exact .advance hrest (by simp [Token.isMark, text_of_isMark hopening, htext])

theorem LeafAt.isMark_eq_false (h : LeafAt token s) (text : String) : token.isMark text = false := by
  refine Parser.isMark_eq_false ?_
  rcases h with ⟨h, -⟩ | h | h | ⟨h, -, -⟩
  · simp [h]
  · simp [h]
  · simp [h]
  · simp [kind_of_isOperatorBox h]

theorem CallAt.before {name : Token} (hrest : s.rest = name :: rest) (h : CallAt name s) :
    s.Before s.advance.advance.count := by
  have hname : name.isMark ";" = false := isMark_eq_false (kind_ne_of_isCallable h.isCallable)
  exact ((State.Before.advance hrest hname).trans (before_opening h.2 (by decide))).trans (.of_rest rfl)

/-- Where no brace opens, reading boxes takes no semicolon. -/
theorem Reading.before {d : Int} {job : Job} {t : State} {r : job.Result} {b : Braces} (h : Reading d job s r t b)
    (hjob : job.readsBoxes) (hs : s.Unbraced) : s.Before t := by
  -- No block is read, so the definitions in one need not be looked at.
  have hopened {s : State} {keyword : Token} {rest : List Token} (hs : s.Unbraced) (hrest : s.rest = keyword :: rest)
      (hopen : s.advance.atMark "\x7b") : False := by
    obtain ⟨opening, rest', hrest', hopening⟩ := exists_of_atMark hopen
    have hfalse := hs opening (by rw [hrest, ← State.rest_advance_of_rest hrest, hrest']; simp)
    simp [hopening] at hfalse
  induction h with
  | nested => exact .of_rest rfl
  | expression _ _ _ ih ih' =>
    have hbox := ih rfl hs
    exact (hbox.trans (ih' rfl (hbox.unbraced hs))).trans (.of_rest rfl)
  | blocksDone | compositionDone | arithmeticDone => exact .refl _
  | blockMissing _ hrest hkeyword =>
    exact (State.Before.advance hrest (isMark_eq_false (by simp [kind_of_isKeyword hkeyword]))).trans (.of_rest rfl)
  | blockUnclosed _ hrest _ hopen | block _ hrest _ hopen => exact (hopened hs hrest hopen).elim
  | composition _ _ ih ih' => exact (ih rfl hs).trans (ih' rfl ((ih rfl hs).unbraced hs))
  | @compose _ par _ s token _ op _ t _ _ _ _ _ hrest hop _ _ _ ih ih' =>
    have hkind : token.kind = .operator := ((compositionOf?_eq_some_iff par token op).mp hop).kind
    have hadvance := State.Before.advance hrest (isMark_eq_false (by simp [hkind]))
    have hright : s.Before t.count := (hadvance.trans (ih rfl (hadvance.unbraced hs))).trans (.of_rest rfl)
    exact hright.trans (ih' rfl (hright.unbraced hs))
  | @arithmetic _ _ box t _ _ _ _ _ _ ih ih' =>
    have hprimes := (ih rfl hs).trans (before_primes box t)
    exact hprimes.trans (ih' rfl (hprimes.unbraced hs))
  | @operate _ left s token _ precedence right t _ _ _ _ _ hrest hop _ _ _ ih ih' =>
    have hkind : token.kind = .operator := ((arithmeticOf?_eq_some_iff token precedence).mp hop).kind
    have hadvance := State.Before.advance hrest (isMark_eq_false (by simp [hkind]))
    have hright : s.Before (arithmeticBox token left right t).2 :=
      (hadvance.trans (ih rfl (hadvance.unbraced hs))).trans (.of_rest rfl)
    exact hright.trans (ih' rfl (hright.unbraced hs))
  | ended | unexpected => exact .of_rest rfl
  | leaf hrest h => exact before_leaf hrest (h.isMark_eq_false ";")
  | negative hrest hsign hnumber =>
    have hadvance := State.Before.advance hrest (isMark_eq_false (by simp [kind_of_isOperator hsign]))
    refine (hadvance.trans (.advance (State.rest_advance_of_rest hrest) (isMark_eq_false (by simp [hnumber])))).trans
      (.of_rest ?_)
    unfold negativeNumber State.numberOf
    dsimp only
    split <;> rfl
  | parenthesisInvalid hrest hopen _ _ ih =>
    have hadvance := State.Before.advance hrest (by simp [Token.isMark, text_of_isMark hopen])
    exact hadvance.trans (ih rfl (hadvance.unbraced hs))
  | parenthesisUnclosed hrest hopen _ _ _ ih =>
    have hadvance := State.Before.advance hrest (by simp [Token.isMark, text_of_isMark hopen])
    exact (hadvance.trans (ih rfl (hadvance.unbraced hs))).trans (.of_rest rfl)
  | parenthesis hrest hopen _ _ hclose ih =>
    have hadvance := State.Before.advance hrest (by simp [Token.isMark, text_of_isMark hopen])
    exact (hadvance.trans (ih rfl (hadvance.unbraced hs))).trans (before_opening hclose (by decide))
  | @callEmpty s name _ hrest h hclose =>
    have hreport : s.Before (s.advance.advance.count.reportNext (.emptyArguments name.text)) :=
      (h.before hrest).trans (.of_rest rfl)
    exact hreport.trans (before_opening hclose (by decide))
  | call hrest h _ _ ih => exact (h.before hrest).trans (ih rfl ((h.before hrest).unbraced hs))
  | argumentInvalid _ _ ih => exact ih rfl hs
  | argumentsMalformed _ _ _ ih => exact (ih rfl hs).trans (.of_rest rfl)
  | argumentsMore _ _ hrest hcomma _ ih ih' =>
    have hadvance := (ih rfl hs).trans (.advance hrest (isMark_eq_false (by simp [kind_of_isOperator hcomma])))
    exact hadvance.trans (ih' rfl (hadvance.unbraced hs))
  | argumentsEnd _ _ hrest hclosing ih =>
    exact (ih rfl hs).trans (.advance hrest (by simp [Token.isMark, text_of_isMark hclosing]))
  | localsDone | localsSkip | localsMore | headerUnreadable | headerUnended | bodyInvalid | definition => cases hjob

end Patchbay.Parser
