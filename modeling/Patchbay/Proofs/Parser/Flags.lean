import Patchbay.Proofs.Parser.Growth

/-!
# Which definitions are invalid

A definition is invalid exactly if something was found while it was read. What is found between the braces of a block in
its body does not count: it belongs to the definitions in there, which have flags of their own. Findings are numbered in
the order in which they are made, so that those of a part of the reading are the ones with numbers in a range.
-/

open List

namespace Patchbay.Parser

/-- How much has been found. -/
def State.found (s : State) : Nat := s.findings.length

/-- One of the findings from number `m` up to number `n` was made outside of the braces. -/
def FoundOutside (m n : Nat) (braces : Braces) : Prop :=
  ∃ i, m ≤ i ∧ i < n ∧ ∀ p ∈ braces, i < p.1.found ∨ p.2.found ≤ i

/-- Braces of a block, read while the findings from `m` up to `n` were made. -/
structure Braced (m n : Nat) (braces : State × State) : Prop where
  opened : ∃ token ∈ braces.1.last, token.isMark "\x7b" = true
  closed : ∀ token ∈ braces.2.peek, token.isMark "\x7d" = true
  after : m ≤ braces.1.found
  before : braces.2.found ≤ n

/-- The flag tells whether something was found outside of the braces. -/
structure Flagged (m n : Nat) (braces : Braces) (invalid : Bool) : Prop where
  le : m ≤ n
  braced : ∀ p ∈ braces, Braced m n p
  flag : invalid = true ↔ FoundOutside m n braces

variable {d : Int} {s t : State} {m n k : Nat} {b c : Braces} {invalid : Bool}

namespace Flagged

theorem cast {flag : Bool} (h : Flagged m n b invalid) (hflag : invalid = flag) : Flagged m n b flag := hflag ▸ h

theorem refl (n : Nat) : Flagged n n [] false := by
  refine ⟨Nat.le_refl n, by simp, ⟨nofun, ?_⟩⟩
  rintro ⟨i, hle, hlt, -⟩
  omega

/-- As long as all is well, only what comes next matters. -/
theorem trans (h : Flagged m n b false) (h' : Flagged n k c invalid) : Flagged m k (b ++ c) invalid := by
  refine ⟨Nat.le_trans h.le h'.le, fun p hp => ?_, h'.flag.trans ⟨?_, ?_⟩⟩
  · rcases mem_append.mp hp with hp | hp
    · have hp := h.braced p hp
      exact ⟨hp.opened, hp.closed, hp.after, Nat.le_trans hp.before h'.le⟩
    · have hp := h'.braced p hp
      exact ⟨hp.opened, hp.closed, Nat.le_trans h.le hp.after, hp.before⟩
  · rintro ⟨i, hle, hlt, hout⟩
    refine ⟨i, Nat.le_trans h.le hle, hlt, fun p hp => ?_⟩
    rcases mem_append.mp hp with hp | hp
    · exact .inr (Nat.le_trans (h.braced p hp).before hle)
    · exact hout p hp
  · rintro ⟨i, hle, hlt, hout⟩
    -- A finding of the first part would stand outside of its braces.
    have hnot : ¬ FoundOutside m n b := fun hfound => Bool.false_ne_true (h.flag.mpr hfound)
    refine ⟨i, Nat.le_of_not_lt fun hlt' => hnot ?_, hlt, fun p hp => hout p (mem_append_right b hp)⟩
    exact ⟨i, hle, hlt', fun p hp => hout p (mem_append_left c hp)⟩

/-- A finding right now stands outside of all braces before. -/
theorem add (h : Flagged m n b invalid) : Flagged m (n + 1) b true := by
  refine ⟨Nat.le_succ_of_le h.le, fun p hp => ?_, ⟨fun _ => ?_, fun _ => rfl⟩⟩
  · have hp := h.braced p hp
    exact ⟨hp.opened, hp.closed, hp.after, Nat.le_succ_of_le hp.before⟩
  · exact ⟨n, h.le, Nat.lt_succ_self n, fun p hp => .inr (h.braced p hp).before⟩

/-- All that is found between braces is inside. -/
theorem between {opened closed : State} (hopen : ∃ token ∈ opened.last, token.isMark "\x7b")
    (hclose : ∀ token ∈ closed.peek, token.isMark "\x7d") (hle : opened.found ≤ closed.found) :
    Flagged opened.found closed.found [(opened, closed)] false := by
  refine ⟨hle, fun p hp => ?_, ⟨nofun, ?_⟩⟩
  · obtain rfl := mem_singleton.mp hp
    exact ⟨hopen, hclose, Nat.le_refl _, Nat.le_refl _⟩
  · rintro ⟨i, hfrom, hto, hout⟩
    have h := hout _ (mem_singleton_self _)
    dsimp only at h
    omega

end Flagged

/-! ## Single steps -/

@[simp] theorem found_advance (s : State) : s.advance.found = s.found := by simp [State.found]

@[simp] theorem found_report (s : State) (p : Position) (i : Issue) : (s.report p i).found = s.found + 1 := by
  simp [State.found]

@[simp] theorem found_reportNext (s : State) (i : Issue) : (s.reportNext i).found = s.found + 1 := by
  simp [State.found]

namespace Flagged

theorem advance (h : Flagged m s.found b invalid) : Flagged m s.advance.found b invalid := (found_advance s).symm ▸ h

theorem count (h : Flagged m s.found b invalid) : Flagged m s.count.found b invalid := h

theorem after (h : Flagged s.advance.found n b invalid) : Flagged s.found n b invalid := found_advance s ▸ h

theorem reportNext (h : Flagged m s.found b invalid) (i : Issue) : Flagged m (s.reportNext i).found b true :=
  (found_reportNext s i).symm ▸ h.add

theorem fail (h : Flagged m s.found b invalid) (i : Issue) (token : Option Token) :
    Flagged m (s.fail i token).2.found b (s.fail i token).1.invalid := h.reportNext i

end Flagged

theorem flagged_header (s : State) : Flagged s.found (header s).2.2.found [] (!(header s).2.1) := by
  have hstart : s.advance.count.found = s.found := found_advance s
  rw [← hstart]
  unfold header parameters
  split
  · exact .refl _
  · dsimp only
    split
    · exact (found_advance s.advance.count) ▸ .refl _
    · rw [found_reportNext]
      exact (found_advance s.advance.count) ▸ (Flagged.refl _).add

theorem flagged_endStatement (what : String) (s : State) :
    Flagged s.found (endStatement what s).2.found [] (!(endStatement what s).1) := by
  unfold endStatement
  split
  · rw [found_report]
    exact (Flagged.refl _).add
  · split
    · rw [found_advance]
      exact .refl _
    · split
      · exact found_report s _ _ ▸ (Flagged.refl _).add
      · dsimp only
        split
        · exact found_report s _ _ ▸ (Flagged.refl _).add
        · exact found_report s _ _ ▸ (Flagged.refl _).add

theorem flagged_leaf (token : Token) (s : State) :
    Flagged s.found (leaf token s).2.found [] (leaf token s).1.invalid := by
  have hnumber : (s.advance.numberOf token).2.found = s.found := by
    unfold State.numberOf
    split <;> exact found_advance s
  unfold leaf
  split
  · exact hnumber ▸ .refl _
  · exact found_advance s ▸ .refl _
  · exact found_advance s ▸ .refl _

theorem flagged_negativeNumber (sign token : Token) (s : State) :
    Flagged s.found (negativeNumber sign token s).2.found [] (negativeNumber sign token s).1.invalid := by
  have hfound : s.advance.advance.found = s.found := by simp
  have hnumber : (s.advance.advance.numberOf token).2.found = s.found := by
    unfold State.numberOf
    split <;> exact hfound
  exact hnumber ▸ .refl _

theorem flagged_primes {box : Box} (h : Flagged m s.found b box.invalid) :
    Flagged m (primes box s).2.found b (primes box s).1.invalid := by
  have hfold (ts : List Token) (read : Box × State) (hread : Flagged m read.2.found b false)
      (hvalid : read.1.invalid = false) :
      Flagged m (ts.foldl prime read).2.found b (ts.foldl prime read).1.invalid := by
    induction ts generalizing read with
    | nil => exact hvalid.symm ▸ hread
    | cons t ts ih => exact ih (prime read t) (found_advance read.2 ▸ hread) rfl
  unfold primes
  split
  · exact h
  · rename_i hvalid
    have hvalid : box.invalid = false := by simpa using hvalid
    exact hfold _ (box, s) (h.cast hvalid) hvalid

/-! ## Boxes and definitions -/

/-- What the flag of a result tells. A job that goes on with a box tells about the findings for that box too. -/
def Job.Flags : (job : Job) → State → job.Result → State → Braces → Prop
  | .expression _, s, box, t, b => Flagged s.found t.found b box.invalid
  | .blocks left, s, box, t, b => ∀ m c, Flagged m s.found c left.invalid → Flagged m t.found (c ++ b) box.invalid
  | .composition _ _, s, box, t, b => Flagged s.found t.found b box.invalid
  | .compositionRest _ _ left, s, box, t, b =>
    ∀ m c, Flagged m s.found c left.invalid → Flagged m t.found (c ++ b) box.invalid
  | .arithmetic _, s, box, t, b => Flagged s.found t.found b box.invalid
  | .arithmeticRest _ left, s, box, t, b =>
    ∀ m c, Flagged m s.found c left.invalid → Flagged m t.found (c ++ b) box.invalid
  | .primary, s, box, t, b => Flagged s.found t.found b box.invalid
  | .arguments _ _ _, s, read, t, b => Flagged s.found t.found b (!read.2)
  | .localDefinitions _, s, _, t, _ => s.found ≤ t.found ∧ ∀ token ∈ t.peek, token.isMark "\x7d" = true
  | .definition _, s, e, t, b => Flagged s.found t.found b e.invalid

/-- Braces open after the keyword. -/
theorem flagged_block (hopen : s.advance.atMark "\x7b") (h : Flagged m s.found c false)
    (ht : s.advance.advance.count.found ≤ t.found ∧ ∀ token ∈ t.peek, token.isMark "\x7d") :
    Flagged m t.found (c ++ [(s.advance.advance.count, t)]) false := by
  have hlast : ∃ token ∈ s.advance.advance.count.last, token.isMark "\x7b" := by
    obtain ⟨token, htoken, hmark⟩ := (Option.any_eq_true _ _).mp hopen
    obtain ⟨rest, hrest⟩ := head?_eq_some_iff.mp htoken
    have hlast : s.advance.advance.last = some token := by rw [State.advance, hrest]
    exact ⟨token, hlast, hmark⟩
  have hfound : s.advance.advance.count.found = s.found := by
    rw [← found_advance s, ← found_advance s.advance]
    rfl
  exact h.trans (hfound ▸ .between hlast ht.2 ht.1)

/-- Reading flags what it gives. -/
theorem Reading.flags {job : Job} {r : job.Result} (h : Reading d job s r t b) : job.Flags s r t b := by
  induction h with
  | nested => exact (Flagged.refl (State.found _)).fail _ _
  | expression _ _ _ ih ih' => exact ih' _ _ ih
  | blocksDone | compositionDone | arithmeticDone => exact fun m c h => (append_nil c).symm ▸ h
  | blockMissing => exact fun m c h => (append_nil c).symm ▸ h.advance.fail _ _
  | blockUnclosed hvalid hrest _ hopen _ _ ih =>
    intro m c h
    exact (flagged_block hopen (h.cast hvalid) ih).reportNext _
  | block hvalid hrest _ hopen _ _ _ ih ih' =>
    intro m c h
    have hall := ih' m _ (flagged_block hopen (h.cast hvalid) ih).advance
    rwa [List.append_assoc] at hall
  | composition _ _ ih ih' => exact ih' _ _ ih
  | compose hvalid _ _ _ _ _ ih ih' | operate hvalid _ _ _ _ _ ih ih' =>
    intro m c h
    have hall := ih' m _ ((h.cast hvalid).trans ih.after)
    rwa [List.append_assoc] at hall
  | arithmetic _ _ ih ih' => exact ih' _ _ (flagged_primes ih)
  | ended | unexpected => exact (Flagged.refl (State.found _)).fail _ _
  | leaf => exact flagged_leaf _ _
  | negative => exact flagged_negativeNumber _ _ _
  | parenthesisInvalid _ _ _ _ ih => exact ih.after
  | parenthesisUnclosed _ _ _ _ _ ih => exact ih.after.fail _ _
  | parenthesis _ _ _ _ _ ih => exact ih.after.advance
  | callEmpty => exact ((Flagged.refl (State.found _)).advance.advance.count.reportNext _).advance
  | call _ _ _ _ ih => exact ih.after.after
  | argumentInvalid _ hinvalid ih => exact ih.cast hinvalid
  | argumentsMalformed _ _ _ ih => exact ih.reportNext _
  | argumentsMore _ hvalid _ _ _ ih ih' => exact (ih.cast hvalid).trans ih'.after
  | argumentsEnd _ hvalid _ _ ih => exact (ih.cast hvalid).advance
  | localsDone h => exact ⟨Nat.le_refl _, h⟩
  | localsSkip _ _ _ _ ih => exact ⟨Nat.le_trans (Nat.le_add_right _ 1) (found_report _ _ _ ▸ ih.1), ih.2⟩
  | localsMore _ _ _ _ ih ih' => exact ⟨Nat.le_trans ih.le ih'.1, ih'.2⟩
  | @headerUnreadable _ s hreadable =>
    have hheader := flagged_header s
    rw [hreadable] at hheader
    exact hheader
  | @headerUnended _ s => exact (flagged_header s).reportNext _
  | @bodyInvalid _ s _ _ _ hreadable _ _ hinvalid ih =>
    have hheader := flagged_header s
    rw [hreadable] at hheader
    exact hheader.trans (ih.after.cast hinvalid)
  | @definition name s body t b hreadable _ _ hvalid ih =>
    have hheader := flagged_header s
    rw [hreadable] at hheader
    have hend := flagged_endStatement ("definition of '" ++ name.text ++ "'") t
    have hall := hheader.trans ((ih.after.cast hvalid).trans hend)
    rwa [append_nil] at hall

end Patchbay.Parser

/-! ## Programs -/

namespace Patchbay.Program

open Patchbay.Parser

variable {tokens : List Token} {maxDepth : Int} {p : Program} {findings : List Finding}

/-- Every definition was read from some token on, and its flag is exact. -/
theorem flagged_of_parse (h : Program.parse tokens maxDepth = .ok (p, findings)) {e : Definition}
    (he : Node.definition e ∈ p.nodes) :
    ∃ name s t braces, Reading maxDepth (.definition name) s e t braces ∧ s.peek = some name ∧ s.rest <:+ tokens ∧
      t.findings <+: findings ∧ Flagged s.found t.found braces e.invalid := by
  have hmem : Node.definition e ∈ inner p := (mem_cons.mp he).resolve_left nofun
  obtain ⟨name, s, t, braces, hread, hname, hrest, -, hfindings⟩ := (made_of_parse h).traced e hmem
  obtain ⟨-, -, rfl⟩ := run_of_parse h
  exact ⟨name, s, t, braces, hread, hname, hrest, hfindings, hread.flags⟩

/-- Where nothing is found, only boxes could still be invalid. -/
theorem valid_definition_of_parse (h : Program.parse tokens maxDepth = .ok (p, [])) {e : Definition}
    (he : Node.definition e ∈ p.nodes) : e.invalid = false := by
  obtain ⟨_, s, t, braces, -, -, -, hfindings, hflag⟩ := flagged_of_parse h he
  have hnone : t.found = 0 := by simp [State.found, prefix_nil.mp hfindings]
  refine Bool.eq_false_iff.mpr fun hinvalid => ?_
  obtain ⟨i, -, hlt, -⟩ := hflag.flag.mp hinvalid
  omega

/-- Where nothing is found, nothing is invalid. -/
theorem valid_of_parse (h : Program.parse tokens maxDepth = .ok (p, [])) {n : Node} (hn : n ∈ p.nodes) :
    n.mark.invalid = false := by
  let valid := p.nodes.filter (!·.mark.invalid)
  have hvalid {m : Node} : m ∈ valid ↔ m ∈ p.nodes ∧ m.mark.invalid = false := by simp [valid]
  -- Whatever is part of a valid node is valid, and the definitions of the program are valid.
  have hparts : PartsIn valid := by
    intro m hm k hk
    obtain ⟨hm, hmvalid⟩ := hvalid.mp hm
    have hmem := p.partsIn_nodes m hm k hk
    refine hvalid.mpr ⟨hmem, ?_⟩
    cases k with
    | program => rfl
    | importing | declaration => exact readFrom_of_parse h hmem
    | definition e => exact valid_definition_of_parse h hmem
    | box b => exact whole_of_parse h hm hmvalid b hk
  have hdefinitions : Definition.nodesAll p.definitions ⊆ valid := by
    refine hparts.nodes_definitions p.definitions fun e he => hvalid.mpr ?_
    have hmem := p.mem_nodes_of_definition he
    exact ⟨hmem, valid_definition_of_parse h hmem⟩
  cases n with
  | program => rfl
  | importing | declaration => exact readFrom_of_parse h hn
  | definition e => exact valid_definition_of_parse h hn
  | box b =>
    have hmem : Node.box b ∈ Definition.nodesAll p.definitions := by simpa [nodes] using hn
    exact (hvalid.mp (hdefinitions hmem)).2

/-- Every definition of a program that was read, wherever it stands, is invalid exactly if something was found while it
was read, outside of the braces of the blocks in its body. A program in which nothing was found has no invalid node. -/
theorem invalid_iff_found_outside (tokens : List Token) (maxDepth : Int)
    (h : ∀ t ∈ tokens, t.kind = .number → (Number.ofNumeral? t.text.toList).isSome = true) :
    ∃ p findings, Program.parse tokens maxDepth = .ok (p, findings) ∧
      (∀ e, Node.definition e ∈ p.nodes → ∃ name s t braces,
        s.rest <:+ tokens ∧ s.peek = some name ∧ definition maxDepth (fuelFor s) name s = (e, t) ∧
        t.findings <+: findings ∧ Reading maxDepth (.definition name) s e t braces ∧
        (∀ q ∈ braces, Braced s.found t.found q) ∧
        (e.mark.invalid = true ↔ FoundOutside s.found t.found braces)) ∧
      (findings = [] → ∀ n ∈ p.nodes, n.mark.invalid = false) := by
  have hok := parse_eq_ok maxDepth h
  refine ⟨_, _, hok, fun e he => ?_, fun hnone n hn => ?_⟩
  · obtain ⟨name, s, t, braces, hread, hname, hrest, hfindings, hflag⟩ := flagged_of_parse hok he
    exact ⟨name, s, t, braces, hrest, hname, Gives.definition_eq ⟨braces, hread⟩, hfindings, hread, hflag.braced,
      hflag.flag⟩
  · rw [hnone] at hok
    exact valid_of_parse hok hn

/-- The tokens of `a = 1 with { b = ; };`: the definition in the block has no body. -/
def bodilessTokens : List Token :=
  [⟨.identifier, "a", ⟨1, 1⟩, ⟨1, 2⟩⟩, ⟨.operator, "=", ⟨1, 3⟩, ⟨1, 4⟩⟩, ⟨.number, "1", ⟨1, 5⟩, ⟨1, 6⟩⟩,
    ⟨.keyword, "with", ⟨1, 7⟩, ⟨1, 11⟩⟩, ⟨.punctuation, "\x7b", ⟨1, 12⟩, ⟨1, 13⟩⟩,
    ⟨.identifier, "b", ⟨1, 14⟩, ⟨1, 15⟩⟩, ⟨.operator, "=", ⟨1, 16⟩, ⟨1, 17⟩⟩,
    ⟨.punctuation, ";", ⟨1, 18⟩, ⟨1, 19⟩⟩, ⟨.punctuation, "\x7d", ⟨1, 20⟩, ⟨1, 21⟩⟩,
    ⟨.punctuation, ";", ⟨1, 21⟩, ⟨1, 22⟩⟩]

theorem invalid_iff_found_outside_bodiless :
    (∀ t ∈ bodilessTokens, t.kind = .number → (Number.ofNumeral? t.text.toList).isSome = true) ∧
      ∃ p findings, Program.parse bodilessTokens 3 = .ok (p, findings) ∧
        (∀ e, Node.definition e ∈ p.nodes → ∃ name s t braces,
          s.rest <:+ bodilessTokens ∧ s.peek = some name ∧ definition 3 (fuelFor s) name s = (e, t) ∧
          t.findings <+: findings ∧ Reading 3 (.definition name) s e t braces ∧
          (∀ q ∈ braces, Braced s.found t.found q) ∧
          (e.mark.invalid = true ↔ FoundOutside s.found t.found braces)) ∧
        (findings = [] → ∀ n ∈ p.nodes, n.mark.invalid = false) := by
  have h : ∀ t ∈ bodilessTokens, t.kind = .number → (Number.ofNumeral? t.text.toList).isSome = true := by
    decide +kernel
  exact ⟨h, invalid_iff_found_outside bodilessTokens 3 h⟩

end Patchbay.Program
