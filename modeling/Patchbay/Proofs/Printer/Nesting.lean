import Patchbay.Proofs.Printer.RoundTrip

/-!
# The levels that a printed program needs

A printed program is read back without a finding exactly when its `nesting` is within the limit. The source it was
read from may have had fewer levels: an arithmetic operator needs no parentheses there, but the tree it stands
for is printed with two of them around the left operand.

How deep words are nested does not depend on how they are derived. `Level.next` follows one word, and
`Level.peak` is the deepest level on the way. A derivation with `n` levels stays within `n`, and the words of a
printed tree climb to its `nesting`.
-/

open List

namespace Patchbay

open Word

/-! ## Levels of words -/

/-- How many expressions are open, and whether a definition is expected, so that parentheses are those of
parameters. -/
structure Level where
  heading : Bool
  depth : Nat

namespace Level

/-- The level after a word. -/
def next (l : Level) (w : Word) : Level :=
  if l.heading then
    if w = .operator "=" then ⟨false, l.depth + 1⟩
    else if w = .mark "\x7d" then ⟨false, l.depth⟩
    else l
  else if w = .mark "(" then ⟨false, l.depth + 1⟩
  else if w = .mark ")" then ⟨false, l.depth - 1⟩
  else if w = .mark "\x7b" then ⟨true, l.depth⟩
  else if w = .mark ";" then ⟨true, l.depth - 1⟩
  else l

/-- The largest depth on the way through the words. -/
def peak (l : Level) : List Word → Nat
  | [] => l.depth
  | w :: ws => max l.depth ((l.next w).peak ws)

theorem peak_append (l : Level) (us vs : List Word) :
    l.peak (us ++ vs) = max (l.peak us) ((us.foldl next l).peak vs) := by
  induction us generalizing l with
  | nil =>
    have hdepth : l.depth ≤ l.peak vs := by
      cases vs with
      | nil => exact Nat.le_refl _
      | cons v vs => exact Nat.le_max_left _ _
    exact (Nat.max_eq_right hdepth).symm
  | cons u us ih => simp only [cons_append, peak, ih, foldl_cons, Nat.max_assoc]

end Level

/-- A word that may stand before the sign of equality of a definition, or in another statement. -/
def Word.isHeading (w : Word) : Bool := w ≠ .operator "=" && w ≠ .mark "\x7d"

variable {d m : Int} {n : Nat} {q : Grammar.Tree} {w : Word} {t : Token} {text source : String} {p : Program}
  {us vs ws : List Word} {kind : TokenKind} {ts : List Token} {names : List String} {ds : List (String × String)}

theorem Word.isHeading_of_kind (h : w.kind ≠ .operator) (h' : w.kind ≠ .punctuation) : w.isHeading := by
  have hequals : w ≠ .operator "=" := fun hw => h (congrArg kind hw)
  have hbrace : w ≠ .mark "\x7d" := fun hw => h' (congrArg kind hw)
  simp [isHeading, hequals, hbrace]

/-- The words come back to the level they start from, and are at most `k` levels above it on the way. -/
def Climbs (heading : Bool) (k : Nat) (ws : List Word) : Prop :=
  ∀ d, ws.foldl Level.next ⟨heading, d⟩ = ⟨heading, d⟩ ∧ Level.peak ⟨heading, d⟩ ws = d + k

namespace Climbs

open Scan

variable {heading : Bool} {j k : Nat} {us vs ws : List Word}

theorem nil : Climbs heading 0 [] := fun _ => ⟨rfl, rfl⟩

theorem append (hu : Climbs heading j us) (hv : Climbs heading k vs) : Climbs heading (max j k) (us ++ vs) := by
  intro d
  obtain ⟨hend, hpeak⟩ := hu d
  obtain ⟨hend', hpeak'⟩ := hv d
  refine ⟨by rw [foldl_append, hend, hend'], ?_⟩
  rw [Level.peak_append, hend, hpeak, hpeak']
  omega

/-- The number of levels is determined by the words. -/
theorem unique (hj : Climbs heading j ws) (hk : Climbs heading k ws) : j = k := by
  have h := (hj 0).2.symm.trans (hk 0).2
  omega

/-- A word that leaves the level as it is. -/
theorem word (h : ∀ d, Level.next ⟨heading, d⟩ w = ⟨heading, d⟩) : Climbs heading 0 [w] := by
  intro d
  simp [Level.peak, h]

/-- Only punctuation changes the level of an expression. -/
theorem plain (h : w.kind ≠ .punctuation) : Climbs false 0 [w] := by
  have hmark (text : String) : w ≠ .mark text := fun hw => h (congrArg kind hw)
  exact word fun d => by simp [Level.next, hmark]

theorem cons {w : Word} (h : w.kind ≠ .punctuation) (hw : Climbs false k ws) : Climbs false k (w :: ws) := by
  have hboth := (plain h).append hw
  rwa [Nat.zero_max] at hboth

/-- Before a definition, only a sign of equality and a closing brace change the level. -/
theorem statement (h : ∀ w ∈ ws, w.isHeading) : Climbs true 0 ws := by
  induction ws with
  | nil => exact nil
  | cons w ws ih =>
    have hw : w ≠ .operator "=" ∧ w ≠ .mark "\x7d" := by simpa [isHeading] using h w (by simp)
    have hword : Climbs true 0 [w] := word fun d => by simp [Level.next, hw]
    exact hword.append (ih fun v hv => h v (by simp [hv]))

/-- Parentheses around an expression open a level. -/
theorem enclosed (h : Climbs false k ws) : Climbs false (k + 1) (.mark "(" :: (ws ++ [.mark ")"])) := by
  intro d
  obtain ⟨hend, hpeak⟩ := h (d + 1)
  have hopen : Level.next ⟨false, d⟩ (.mark "(") = ⟨false, d + 1⟩ := by simp [Level.next]
  have hclose : Level.next ⟨false, d + 1⟩ (.mark ")") = ⟨false, d⟩ := by simp [Level.next, mark]
  refine ⟨by rw [foldl_cons, hopen, foldl_append, hend, foldl_cons, hclose, foldl_nil], ?_⟩
  simp only [Level.peak, hopen, Level.peak_append, hpeak, hend, hclose]
  omega

theorem bracket (h : Climbs false k ws) (brackets : Bool) :
    Climbs false (k + brackets.toNat) (bracket brackets ws) := by
  cases brackets with
  | false => exact h
  | true => exact h.enclosed

/-- The sign of equality opens the level that the semicolon closes. -/
theorem definition (hus : Climbs true 0 us) (h : Climbs false k ws) :
    Climbs true (k + 1) (us ++ .operator "=" :: (ws ++ [.mark ";"])) := by
  intro d
  obtain ⟨hstart, hpeak₀⟩ := hus d
  obtain ⟨hend, hpeak⟩ := h (d + 1)
  have hopen : Level.next ⟨true, d⟩ (.operator "=") = ⟨false, d + 1⟩ := by simp [Level.next]
  have hclose : Level.next ⟨false, d + 1⟩ (.mark ";") = ⟨true, d⟩ := by simp [Level.next, mark]
  refine ⟨by simp only [foldl_append, foldl_cons, foldl_nil, hstart, hopen, hend, hclose], ?_⟩
  simp only [Level.peak_append, Level.peak, hstart, hpeak₀, hopen, hpeak, hend, hclose]
  omega

/-- Braces open no level by themselves. -/
theorem block (h : Climbs true k ws) : Climbs false k (.keyword "with" :: .mark "\x7b" :: (ws ++ [.mark "\x7d"])) := by
  refine cons (by decide) fun d => ?_
  obtain ⟨hend, hpeak⟩ := h d
  have hopen : Level.next ⟨false, d⟩ (.mark "\x7b") = ⟨true, d⟩ := by simp [Level.next, mark]
  have hclose : Level.next ⟨true, d⟩ (.mark "\x7d") = ⟨false, d⟩ := by
    simp [Level.next, mark, operator]
  refine ⟨by rw [foldl_cons, hopen, foldl_append, hend, foldl_cons, hclose, foldl_nil], ?_⟩
  simp only [Level.peak, hopen, Level.peak_append, hpeak, hend, hclose]
  omega

end Climbs

namespace Phrase

/-- The heading of a definition opens no level. -/
theorem climbs_heading (name : String) (params : List String) :
    Climbs true 0 (⟨.identifier, name⟩ :: parameterListWords params) := by
  have hname (name : String) : isHeading ⟨.identifier, name⟩ :=
    isHeading_of_kind (by simp) (by simp)
  have hparams : ∀ w ∈ parameterWords params, w.isHeading := by
    have hcomma : isHeading (.operator ",") := by decide
    fun_induction parameterWords params <;> simp_all
  have hlist : ∀ w ∈ parameterListWords params, w.isHeading := by
    have hopening : isHeading (.mark "(") := by decide
    have hclosing : isHeading (.mark ")") := by decide
    unfold parameterListWords
    split
    · simp
    · simpa [hopening, or_imp, forall_and, hclosing] using hparams
  exact .statement (by simpa [hname] using hlist)

theorem IsHead.kind_ne (h : IsHead w) : w.kind ≠ .punctuation := by
  rcases h with hkind | ⟨hkind, -⟩ <;> simp [hkind]

theorem IsBox.kind_ne (h : IsBox w) : w.kind ≠ .punctuation := by
  rcases h with h | rfl
  · exact h.kind_ne
  · decide

/-! ## Levels of printed trees -/

theorem climbs_importing (path : String) :
    Climbs true 0 [.keyword "import", .mark "(", ⟨.string, path⟩, .mark ")", .mark ";"] := by
  have hpath : isHeading ⟨.string, path⟩ := isHeading_of_kind (by simp) (by simp)
  have hmarks : ∀ w ∈ [keyword "import", .mark "(", .mark ")", .mark ";"], w.isHeading := by decide
  exact .statement (by simpa [hpath] using hmarks)

theorem climbs_declaring (names : List String) (value : String) : Climbs true 0
      (.keyword "declare" :: (names.map (mk .identifier) ++ [⟨.string, value⟩, .mark ";"])) := by
  have hname (name : String) : isHeading ⟨.identifier, name⟩ :=
    isHeading_of_kind (by simp) (by simp)
  have hvalue : isHeading ⟨.string, value⟩ := isHeading_of_kind (by simp) (by simp)
  have hmarks : isHeading (.keyword "declare") ∧ isHeading (.mark ";") := by decide
  refine .statement fun w hw => ?_
  simp only [mem_cons, mem_append, mem_map, not_mem_nil, or_false] at hw
  rcases hw with rfl | ⟨name, -, rfl⟩ | rfl | rfl
  · exact hmarks.1
  · exact hname name
  · exact hvalue
  · exact hmarks.2

theorem climbs_imports (paths : List String) : Climbs true 0 (paths.flatMap importWords) := by
  induction paths with
  | nil => exact .nil
  | cons path paths ih => exact (climbs_importing _).append ih

theorem PrintsDeclarations.climbs (h : PrintsDeclarations ds ws) : Climbs true 0 ws := by
  induction h with
  | nil => exact .nil
  | cons hd _ ih =>
    cases hd with
    | intro _ _ => exact (climbs_declaring _ _).append ih

mutual

theorem Prints.climbs {p : Phrase} {ws : List Word} : Prints p ws → Climbs false p.nesting ws
  | .name _ h => .plain h.kind_ne
  | .number _ _ => .plain (by simp)
  | .negative _ _ => .cons (by decide) (.plain (by simp))
  | .string => .plain (by simp)
  | .call _ hw h => by
    rw [nesting]
    exact h.climbs.enclosed.cons hw.kind_ne
  | .compose hleft hright => by
    rw [nesting]
    exact (hleft.climbs.bracket _).append ((hright.climbs.bracket _).cons (by simp [operator]))
  | .block h hlocals => by
    rw [nesting]
    exact h.climbs.append hlocals.climbs.block

theorem PrintsArguments.climbs {args : List Phrase} {ws : List Word} :
    PrintsArguments args ws → Climbs false (argumentNesting args) ws
  | .last h => by
    rw [argumentNesting, argumentNesting, Nat.max_zero]
    exact h.climbs.bracket _
  | .more h hmore => by
    rw [argumentNesting]
    exact (h.climbs.bracket _).append (hmore.climbs.cons (by decide))

theorem PrintsDefinition.climbs {d : Phrase} {ws : List Word} : PrintsDefinition d ws → Climbs true d.nesting ws
  | .intro _ _ h => by
    rw [nesting]
    exact .definition (climbs_heading _ _) h.climbs

theorem PrintsDefinitions.climbs {ds : List Phrase} {ws : List Word} :
    PrintsDefinitions ds ws → Climbs true (nestings ds) ws
  | .nil => .nil
  | .cons h hmore => by
    rw [nestings]
    exact h.climbs.append hmore.climbs

end

/-! ## Numbers of printed trees -/

/-- A word that is no number, or one with a value. -/
def Valued (w : Word) : Prop := w.kind = .number → (Number.ofNumeral? w.text.toList).isSome = true

theorem valued_of_kind (h : w.kind ≠ .number) : Valued w := fun hkind => absurd hkind h

theorem valued_number {value : Binary64} (h : Number.ofNumeral? text.toList = some value) : Valued ⟨.number, text⟩ := by
  intro _
  simp [h]

theorem IsBox.valued (h : IsBox w) : Valued w := by
  rcases h with (hkind | ⟨hkind, -⟩) | rfl
  · exact valued_of_kind (by simp [hkind])
  · exact valued_of_kind (by simp [hkind])
  · exact valued_of_kind (by decide)

theorem valued_mark (text : String) : Valued (.mark text) := valued_of_kind (by simp [mark])

theorem valued_enclosed (h : ∀ w ∈ ws, Valued w) : ∀ w ∈ mark "(" :: (ws ++ [.mark ")"]), Valued w := by
  simpa [valued_mark, or_imp, forall_and] using h

theorem valued_bracket (h : ∀ w ∈ ws, Valued w) (brackets : Bool) : ∀ w ∈ Word.bracket brackets ws, Valued w := by
  cases brackets with
  | false => exact h
  | true => exact valued_enclosed h

theorem valued_heading (name : String) (params : List String) :
    ∀ w ∈ mk .identifier name :: parameterListWords params, Valued w := by
  have hname (name : String) : Valued ⟨.identifier, name⟩ := valued_of_kind (by simp)
  have hcomma : Valued (.operator ",") := valued_of_kind (by decide)
  have hparams : ∀ w ∈ parameterWords params, Valued w := by
    fun_induction parameterWords params <;> simp_all
  refine forall_mem_cons.mpr ⟨hname name, ?_⟩
  unfold parameterListWords
  split
  · simp
  · exact valued_enclosed hparams

theorem valued_join (hus : ∀ w ∈ us, Valued w) (text : String) (hvs : ∀ w ∈ vs, Valued w) :
    ∀ w ∈ us ++ .operator text :: vs, Valued w := by
  have hop : Valued (.operator text) := valued_of_kind (by simp [operator])
  exact forall_mem_append.mpr ⟨hus, forall_mem_cons.mpr ⟨hop, hvs⟩⟩

mutual

theorem Prints.valued {p : Phrase} {ws : List Word} : Prints p ws → ∀ w ∈ ws, Valued w
  | .name _ h => by simpa using h.valued
  | .number _ hvalue => by simpa using valued_number hvalue
  | .negative _ hvalue =>
    forall_mem_cons.mpr ⟨valued_of_kind (by decide), by simpa using valued_number hvalue⟩
  | .string => by simpa using valued_of_kind (by simp)
  | .call _ hw h =>
    forall_mem_cons.mpr ⟨IsBox.valued (Or.inl hw), valued_enclosed h.valued⟩
  | .compose hleft hright => valued_join (valued_bracket hleft.valued _) _ (valued_bracket hright.valued _)
  | .block h hlocals => by
    have hwith : Valued (.keyword "with") := valued_of_kind (by decide)
    have hlocals' := hlocals.valued
    have hbody := h.valued
    have hclosing := forall_mem_singleton.mpr (valued_mark "\x7d")
    exact forall_mem_append.mpr ⟨hbody, forall_mem_cons.mpr ⟨hwith, forall_mem_cons.mpr
      ⟨valued_mark _, forall_mem_append.mpr ⟨hlocals', hclosing⟩⟩⟩⟩

theorem PrintsArguments.valued {args : List Phrase} {ws : List Word} : PrintsArguments args ws → ∀ w ∈ ws, Valued w
  | .last h => valued_bracket h.valued _
  | .more h hmore => valued_join (valued_bracket h.valued _) "," hmore.valued

theorem PrintsDefinition.valued {d : Phrase} {ws : List Word} : PrintsDefinition d ws → ∀ w ∈ ws, Valued w
  | .intro _ _ h => by
    have hbody := forall_mem_append.mpr ⟨h.valued, forall_mem_singleton.mpr (valued_mark ";")⟩
    rw [← cons_append]
    exact valued_join (valued_heading _ _) "=" hbody

theorem PrintsDefinitions.valued {ds : List Phrase} {ws : List Word} : PrintsDefinitions ds ws → ∀ w ∈ ws, Valued w
  | .nil => by simp
  | .cons h hmore => forall_mem_append.mpr ⟨h.valued, hmore.valued⟩

end

theorem valued_imports (paths : List String) : ∀ w ∈ paths.flatMap importWords, Valued w := by
  intro w hw
  obtain ⟨path, -, hw⟩ := mem_flatMap.mp hw
  have hkind : w.kind ≠ .number := by
    simp only [importWords, mem_cons, not_mem_nil, or_false] at hw
    rcases hw with rfl | rfl | rfl | rfl | rfl <;> simp [keyword, mark]
  exact valued_of_kind hkind

theorem PrintsDeclarations.valued (h : PrintsDeclarations ds ws) : ∀ w ∈ ws, Valued w := by
  induction h with
  | nil => simp
  | cons hd _ ih =>
    cases hd with
    | intro _ _ =>
      refine forall_mem_append.mpr ⟨fun w hw => valued_of_kind ?_, ih⟩
      simp only [mem_cons, mem_append, mem_map, not_mem_nil, or_false] at hw
      rcases hw with rfl | ⟨name, -, rfl⟩ | rfl | rfl <;> simp [keyword, mark]

end Phrase

/-! ## Levels of derivations -/

/-- The words climb at most `n` levels. -/
def ClimbsWithin (heading : Bool) (n : Nat) (ws : List Word) : Prop :=
  ∃ k ≤ n, Climbs heading k ws

namespace ClimbsWithin

variable {heading : Bool} {m n : Nat} {us vs ws : List Word}

theorem append (hu : ClimbsWithin heading n us) (hv : ClimbsWithin heading n vs) :
    ClimbsWithin heading n (us ++ vs) := by
  obtain ⟨j, hj, hu⟩ := hu
  obtain ⟨k, hk, hv⟩ := hv
  exact ⟨max j k, Nat.max_le.mpr ⟨hj, hk⟩, hu.append hv⟩

theorem cons {w : Word} (h : w.kind ≠ .punctuation) (hw : ClimbsWithin false n ws) :
    ClimbsWithin false n (w :: ws) := by
  obtain ⟨k, hk, hw⟩ := hw
  exact ⟨k, hk, hw.cons h⟩

theorem plain (h : w.kind ≠ .punctuation) : ClimbsWithin false n [w] :=
  ⟨0, Nat.zero_le n, .plain h⟩

theorem enclosed (h : ClimbsWithin false n ws) : ClimbsWithin false (n + 1) (.mark "(" :: (ws ++ [.mark ")"])) := by
  obtain ⟨k, hk, hw⟩ := h
  exact ⟨k + 1, Nat.succ_le_succ hk, hw.enclosed⟩

end ClimbsWithin

namespace Grammar

open Phrase

theorem word_of_kind (h : t.kind = kind) : t.word = ⟨kind, t.text⟩ := by
  rw [Token.word, h]

theorem isMark_word (h : t.isMark text) : t.word = .mark text := by
  have h' : t.kind = .punctuation ∧ t.text = text := by simpa [Token.isMark] using h
  rw [word_of_kind h'.1, h'.2]
  rfl

theorem isKeyword_word (h : t.isKeyword text) : t.word = .keyword text := by
  have h' : t.kind = .keyword ∧ t.text = text := by simpa [Token.isKeyword] using h
  rw [word_of_kind h'.1, h'.2]
  rfl

theorem word_kind_ne (h : t.kind = kind) (hkind : kind ≠ .punctuation) : t.word.kind ≠ .punctuation := by
  rw [Token.word, h]
  exact hkind

theorem climbsWithin_enclosed {opening closing : Token} (hopening : opening.isMark "(")
    (h : ClimbsWithin false n (ts.map Token.word)) (hclosing : closing.isMark ")") :
    ClimbsWithin false (n + 1) ((opening :: (ts ++ [closing])).map Token.word) := by
  have hboth := h.enclosed
  rw [← isMark_word hopening, ← isMark_word hclosing] at hboth
  simpa using hboth

/-- Two parts of an expression with an operator between them. -/
theorem climbsWithin_join {us : List Token} (ht : t.kind = .operator) (hts : ClimbsWithin false n (ts.map Token.word))
    (hus : ClimbsWithin false n (us.map Token.word)) : ClimbsWithin false n ((ts ++ t :: us).map Token.word) := by
  rw [map_append, map_cons]
  exact hts.append (hus.cons (word_kind_ne ht (by decide)))

theorem word_parameters (h : Parameters ts names) : ts.map Token.word = parameterWords names := by
  induction h with
  | last ht => simp [parameterWords, Token.word, ht.kind]
  | @more t comma ts names ht hcomma hmore ih =>
    obtain ⟨name, names, rfl⟩ : ∃ name rest, names = name :: rest := by cases hmore <;> exact ⟨_, _, rfl⟩
    rw [map_cons, map_cons, ih, isOperator_word hcomma, Token.word, ht.kind]
    rfl

theorem word_parameterList (h : ParameterList ts names) : ts.map Token.word = parameterListWords names := by
  cases h with
  | none => rfl
  | @some opening closing ts _ hopening hparams hclosing =>
    have hne : names.isEmpty = false := by cases hparams <;> rfl
    simp [parameterListWords, hne, isMark_word hopening, isMark_word hclosing, word_parameters hparams]

mutual

theorem Expression.climbs {n : Nat} {par : Bool} {ts : List Token} {b : Phrase} :
    Expression n par ts b → ∃ m, n = m + 1 ∧ ClimbsWithin false m (ts.map Token.word)
  | .composition h => ⟨_, rfl, h.climbs⟩
  | .block h hkeyword hopening hlocals hclosing => by
    obtain ⟨m, hm, hbody⟩ := h.climbs
    obtain ⟨k, hk, hdefs⟩ := hlocals.climbs
    obtain rfl : _ = m := Nat.succ.inj hm
    have hblock := hdefs.block
    rw [← isKeyword_word hkeyword, ← isMark_word hopening, ← isMark_word hclosing] at hblock
    refine ⟨_, rfl, ?_⟩
    have hboth := hbody.append ⟨k, hk, hblock⟩
    simpa using hboth

theorem Composition.climbs {n : Nat} {par : Bool} {tier : Nat} {ts : List Token} {b : Phrase} :
    Composition n par tier ts b → ClimbsWithin false n (ts.map Token.word)
  | .operand h => h.climbs
  | .tighter h => h.climbs
  | .join hleft hop hright => climbsWithin_join hop.kind hleft.climbs hright.climbs

theorem Arithmetic.climbs {n tier : Nat} {ts : List Token} {b : Phrase} :
    Arithmetic n tier ts b → ClimbsWithin false n (ts.map Token.word)
  | .operand h => h.climbs
  | .tighter h => h.climbs
  | .join hleft ht hright => climbsWithin_join ht.kind hleft.climbs hright.climbs

theorem Postfix.climbs {n : Nat} {ts : List Token} {b : Phrase} :
    Postfix n ts b → ClimbsWithin false n (ts.map Token.word)
  | .primary h => h.climbs
  | .prime h ht => by
    rw [map_append]
    exact h.climbs.append (.plain (word_kind_ne (Parser.kind_of_isOperator ht) (by decide)))

theorem Primary.climbs {n : Nat} {ts : List Token} {b : Phrase} :
    Primary n ts b → ClimbsWithin false n (ts.map Token.word)
  | .name h => .plain (word_kind_ne h (by decide))
  | .number h _ => .plain (word_kind_ne h (by decide))
  | .negative hsign h _ =>
    .cons (word_kind_ne (Parser.kind_of_isOperator hsign) (by decide)) (.plain (word_kind_ne h (by decide)))
  | .string h => .plain (word_kind_ne h (by decide))
  | .parentheses hopening h hclosing => by
    obtain ⟨m, rfl, hm⟩ := h.climbs
    exact climbsWithin_enclosed hopening hm hclosing
  | .operator h => .plain (word_kind_ne h.kind (by decide))
  | .cut h => .plain (word_kind_ne (Parser.kind_of_isOperator h) (by decide))
  | .call ht hopening h hclosing => by
    obtain ⟨m, rfl, hm⟩ := h.climbs
    exact (climbsWithin_enclosed hopening hm hclosing).cons (isHead_of_isCallable ht).kind_ne

theorem Arguments.climbs {n : Nat} {ts : List Token} {bs : List Phrase} :
    Grammar.Arguments n ts bs → ∃ m, n = m + 1 ∧ ClimbsWithin false m (ts.map Token.word)
  | .last h => h.climbs
  | .more h hcomma hmore => by
    obtain ⟨m, hm, hfirst⟩ := h.climbs
    obtain ⟨m', hm', hrest⟩ := hmore.climbs
    obtain rfl : m = m' := Nat.succ.inj (hm.symm.trans hm')
    exact ⟨m, hm, climbsWithin_join (Parser.kind_of_isOperator hcomma) hfirst hrest⟩

theorem Definition.climbs {n : Nat} {ts : List Token} {d : Phrase} :
    Grammar.Definition n ts d → ClimbsWithin true n (ts.map Token.word)
  | @Definition.intro _ head _ _ _ _ params _ hname hparams hequals h hsemicolon => by
    obtain ⟨m, rfl, k, hk, hbody⟩ := h.climbs
    refine ⟨k + 1, Nat.succ_le_succ hk, ?_⟩
    have hwords := Climbs.definition (climbs_heading head.text params) hbody
    rw [← isOperator_word hequals, ← isMark_word hsemicolon, ← word_parameterList hparams, ← hname] at hwords
    simpa [Token.word] using hwords

theorem Definitions.climbs {n : Nat} {ts : List Token} {ds : List Phrase} :
    Definitions n ts ds → ClimbsWithin true n (ts.map Token.word)
  | .nil => ⟨0, Nat.zero_le _, .nil⟩
  | .cons h hmore => by
    rw [map_append]
    exact h.climbs.append hmore.climbs

end

theorem Statements.climbs (h : Statements n ts q) : ClimbsWithin true n (ts.map Token.word) := by
  induction h with
  | nil => exact ⟨0, Nat.zero_le n, .nil⟩
  | @importing keyword opening path closing semicolon ts q hkeyword hopening hpath hclosing hsemicolon _ ih =>
    have hwords : ([keyword, opening, path, closing, semicolon].map Token.word)
        = [.keyword "import", .mark "(", ⟨.string, path.text⟩, .mark ")", .mark ";"] := by
      simp [isKeyword_word hkeyword, isMark_word hopening, isMark_word hclosing, isMark_word hsemicolon,
        word_of_kind hpath]
    have hhead := climbs_importing path.text
    rw [← hwords] at hhead
    exact .append ⟨0, Nat.zero_le n, hhead⟩ ih
  | @declaring keyword value semicolon names ts q hkeyword _ hnames hvalue hsemicolon _ ih =>
    have hnames' : names.map Token.word = (names.map (·.text)).map (mk .identifier) := by
      rw [map_map]
      exact map_congr_left fun t ht => word_of_kind (hnames t ht)
    have hhead := climbs_declaring (names.map (·.text)) value.text
    rw [← hnames', ← isKeyword_word hkeyword, ← isMark_word hsemicolon, ← word_of_kind hvalue] at hhead
    have hboth := ClimbsWithin.append ⟨0, Nat.zero_le n, hhead⟩ ih
    simpa using hboth
  | defining hdef _ ih =>
    rw [map_append]
    exact hdef.climbs.append ih

end Grammar

namespace Program

open Scan Grammar Phrase

theorem nestings_append (ps qs : List Phrase) : nestings (ps ++ qs) = max (nestings ps) (nestings qs) := by
  induction ps with
  | nil => simp [nestings]
  | cons p ps ih => rw [cons_append, nestings, nestings, ih, Nat.max_assoc]

theorem nestings_map {α : Type} {f : α → Phrase} (h : ∀ a, (f a).nesting = 0) (as : List α) :
    nestings (as.map f) = 0 := by
  induction as with
  | nil => rfl
  | cons a as ih => rw [map_cons, nestings, h, ih, Nat.max_zero]

/-- The levels of a program are those of its definitions. -/
theorem nesting_phrase (p : Program) : p.phrase.nesting = nestings p.tree.definitions := by
  rw [phrase_eq_tree, nesting, Tree.phrases, nestings_append, nestings_append, nestings_map (fun _ => rfl),
    nestings_map (fun _ => rfl)]
  simp

/-- Tokens with the words of a printed tree derive from the grammar only if its levels are allowed. -/
theorem nestings_le_of_derives {t : Tree} (hdecls : PrintsDeclarations t.declarations us)
    (hdefs : PrintsDefinitions t.definitions vs)
    (hwords : ts.map Token.word = t.imports.flatMap importWords ++ (us ++ vs)) (h : Statements n ts q) :
    nestings t.definitions ≤ n := by
  obtain ⟨k, hk, hclimbs⟩ := h.climbs
  rw [hwords] at hclimbs
  have hprinted := (climbs_imports t.imports).append (hdecls.climbs.append hdefs.climbs)
  have heq := hclimbs.unique hprinted
  omega

theorem read_of_parse {findings : List Finding} (hscan : (scan text).2 = [])
    (h : Program.parse (scan text).1 d = .ok (p, findings)) : Program.read text d = .ok (p, findings) := by
  simp [Program.read, h, hscan, Except.map]

theorem valued_of_printed {t : Tree} (hdecls : PrintsDeclarations t.declarations us)
    (hdefs : PrintsDefinitions t.definitions vs)
    (hwords : ts.map Token.word = t.imports.flatMap importWords ++ (us ++ vs)) :
    ∀ t ∈ ts, t.kind = .number → (Number.ofNumeral? t.text.toList).isSome := by
  have hall : ∀ w ∈ t.imports.flatMap importWords ++ (us ++ vs), Valued w :=
    forall_mem_append.mpr ⟨valued_imports _, forall_mem_append.mpr ⟨hdecls.valued, hdefs.valued⟩⟩
  intro token htoken
  exact hall token.word (hwords ▸ mem_map_of_mem htoken)

section

variable (h : Program.read source d = .ok (p, []))

include h

/-- What the words of the printed text of a program say about it. -/
theorem printed_of_read (hrender : p.render = .ok text) :
    ∃ us vs, PrintsDeclarations p.tree.declarations us ∧ PrintsDefinitions p.tree.definitions vs ∧
      (scan text).1.map Token.word = p.tree.imports.flatMap importWords ++ (us ++ vs) ∧ (scan text).2 = [] := by
  have hder := derives_of_parse (parse_of_read h).2
  obtain ⟨⟨us, hdecls⟩, vs, hdefs⟩ := prints_of_statements hder fun t ht => steady_of_mem_scan ht
  have htext := (render_of_prints hdefs).symm.trans hrender
  exact ⟨us, vs, hdecls, hdefs, scan_printed hdecls hdefs (Except.ok.inj htext).symm⟩

/-- With enough levels, the printed text of a program is read as the same program. -/
theorem read_printed_of_le (hrender : p.render = .ok text)
    (hm : p.phrase.nesting ≤ m.toNat) : ∃ q, Program.read text m = .ok (q, []) ∧ p.same q := by
  obtain ⟨us, vs, hdecls, hdefs, hwords, hfindings⟩ := printed_of_read h hrender
  rw [nesting_phrase] at hm
  obtain ⟨q, hq, htree⟩ := parse_of_derives (derives_of_printed hdecls hdefs hwords hm)
  exact ⟨q, read_of_parse hfindings hq, same_of_prints hdefs htree⟩

/-- With fewer levels, the printed text of a program is read with findings. -/
theorem read_printed_of_lt (hrender : p.render = .ok text)
    (hm : m.toNat < p.phrase.nesting) : ∃ q findings, Program.read text m = .ok (q, findings) ∧ findings ≠ [] := by
  obtain ⟨us, vs, hdecls, hdefs, hwords, hfindings⟩ := printed_of_read h hrender
  have hok := parse_eq_ok m (valued_of_printed hdecls hdefs hwords)
  refine ⟨_, _, read_of_parse hfindings hok, fun hnil => ?_⟩
  rw [hnil] at hok
  have hle := nestings_le_of_derives hdecls hdefs hwords (derives_of_parse hok)
  rw [nesting_phrase] at hm
  omega

theorem exists_render_of_read : ∃ text, p.render = .ok text := by
  have hder := derives_of_parse (parse_of_read h).2
  obtain ⟨-, vs, hdefs⟩ := prints_of_statements hder fun t ht => steady_of_mem_scan ht
  exact ⟨_, render_of_prints hdefs⟩

end

/-- A program that was read without a finding is printed as a text that is read again under every limit. No
finding is made exactly when the limit allows the levels of the printed tree, and then the program is the
same. -/
theorem read_render_iff_nesting (source : String) (d : Int) (p : Program) (h : Program.read source d = .ok (p, [])) :
    ∃ text, p.render = .ok text ∧ ∀ m : Int, ∃ q findings, Program.read text m = .ok (q, findings) ∧
      (findings = [] ↔ p.phrase.nesting ≤ m.toNat) ∧ (findings = [] → p.same q = true) := by
  obtain ⟨text, hrender⟩ := exists_render_of_read h
  refine ⟨text, hrender, fun m => ?_⟩
  rcases Nat.lt_or_ge m.toNat p.phrase.nesting with hlt | hle
  · obtain ⟨q, findings, hread, hne⟩ := read_printed_of_lt h hrender hlt
    exact ⟨q, findings, hread, iff_of_false hne (Nat.not_le.mpr hlt), fun hnil => absurd hnil hne⟩
  · obtain ⟨q, hread, hsame⟩ := read_printed_of_le h hrender hle
    exact ⟨q, [], hread, iff_of_true rfl hle, fun _ => hsame⟩

/-- Two sums and a block: four levels where the source has two. -/
theorem read_render_iff_nesting_sums :
    ∃ p, Program.read "y = a + b + 1 with \x7b a = _'; \x7d;" defaultDepth = .ok (p, []) ∧
      ∃ text, p.render = .ok text ∧ ∀ m : Int, ∃ q findings, Program.read text m = .ok (q, findings) ∧
        (findings = [] ↔ p.phrase.nesting ≤ m.toNat) ∧ (findings = [] → p.same q = true) := by
  obtain ⟨p, hp⟩ : ∃ p, Program.read "y = a + b + 1 with \x7b a = _'; \x7d;" defaultDepth = .ok (p, []) :=
    exists_of_no_finding (by decide +kernel)
  exact ⟨p, hp, read_render_iff_nesting _ defaultDepth p hp⟩

/-- The sum of fifty-two ones. -/
def longSum : String := "process = " ++ String.join (List.replicate 51 "1+") ++ "1;"

/-- A long sum is read without a finding, at one level. Its tree is printed with more levels than the limit allows,
so the printed text is not read back. -/
theorem exists_finding_reread_longSum :
    ∃ p text q findings, Program.read longSum defaultDepth = .ok (p, []) ∧ p.render = .ok text ∧
      Program.read text defaultDepth = .ok (q, findings) ∧ findings ≠ [] := by
  have hsum : (Program.read longSum defaultDepth).toOption.map (fun read => (read.2, read.1.phrase.nesting))
      = some ([], 102) := by decide +kernel
  obtain ⟨⟨p, findings⟩, hp, hseen⟩ := exists_ok_of_view hsum
  obtain ⟨rfl, hlevels⟩ := Prod.mk.inj hseen
  obtain ⟨text, hrender⟩ := exists_render_of_read hp
  have hlimit : defaultDepth.toNat < p.phrase.nesting := by
    rw [hlevels]
    decide
  obtain ⟨q, findings, hread, hne⟩ := read_printed_of_lt hp hrender hlimit
  exact ⟨p, text, q, findings, hp, hrender, hread, hne⟩

end Program

end Patchbay
