import Patchbay.Proofs.Parser.Completeness

/-!
# Programs that are read without a finding

A list of tokens is read without a finding exactly when it derives from the grammar, and then the program
that is read has the tree of the derivation. So a list of tokens has at most one derivation.

Statements are read in rounds. A quiet round takes one statement; a statement of the grammar is taken by
one quiet round. Both directions follow by going through the statements from left to right, with the tree of
what was read before in front.
-/

open List

namespace Patchbay.Grammar

/-- The statements of one program, then those of another. -/
def Tree.append (p q : Tree) : Tree :=
  ⟨p.imports ++ q.imports, p.declarations ++ q.declarations, p.definitions ++ q.definitions⟩

theorem Tree.append_assoc (p q r : Tree) : (p.append q).append r = p.append (q.append r) := by
  simp [Tree.append]

theorem Tree.append_empty (p : Tree) : p.append ⟨[], [], []⟩ = p := by
  simp [Tree.append]

end Patchbay.Grammar

namespace Patchbay

theorem Program.tree_add_import (p : Program) (i : Import) :
    { p with imports := p.imports ++ [i] }.tree = p.tree.append ⟨[i.path], [], []⟩ := by
  simp [Program.tree, Grammar.Tree.append]

theorem Program.tree_add_declaration (p : Program) (d : Declaration) :
    { p with declarations := p.declarations ++ [d] }.tree
      = p.tree.append ⟨[], [(d.key, d.value)], []⟩ := by
  simp [Program.tree, Grammar.Tree.append]

theorem Program.tree_add_definition (p : Program) (d : Definition) :
    { p with definitions := p.definitions ++ [d] }.tree = p.tree.append ⟨[], [], [d.phrase]⟩ := by
  simp [Program.tree, Grammar.Tree.append, Definition.phrases_eq_map]

end Patchbay

namespace Patchbay.Parser

open Grammar State

/-! ## Progress -/

theorem extends_round (d : Int) (token : Token) (p : Program) (s : State) :
    s.Extends (round d token p s).2 := by
  unfold round
  split
  · exact extends_importStatement s
  · split
    · exact extends_declareStatement s
    · split
      · exact (gives_definition d token s).choose_spec.extends
      · split
        · exact (s.extends_report _ _ rfl).trans (extends_advance _)
        · exact (s.extends_report _ _ rfl).trans (extends_recover _)

theorem extends_statements (d : Int) (fuel : Nat) (p : Program) (s : State) :
    s.Extends (statements d fuel p s).2 := by
  induction fuel generalizing p s with
  | zero => exact .refl s
  | succ fuel ih =>
    rw [statements]
    split
    · exact .refl s
    · rename_i token _ _
      exact (extends_round d token p s).trans (ih _ _)

theorem rest_foldl_advance (names : List Token) (s : State) :
    (names.foldl (fun s _ => s.advance) s).rest = s.rest.drop names.length := by
  induction names generalizing s with
  | nil => rfl
  | cons name names ih => rw [foldl_cons, ih, rest_advance, ← drop_one, drop_drop,
      length_cons, Nat.add_comm]

/-! ## A quiet round takes a statement -/

/-- The tokens are a statement that adds `q` to the tree of a program. -/
def IsStatement (n : Nat) (ts : List Token) (q : Tree) : Prop :=
  ts ≠ [] ∧ ∀ us p, Statements n us p → Statements n (ts ++ us) (q.append p)

variable {d : Int} {n fuel : Nat} {q : Tree} {s : State} {path token value closing keyword opening semicolon : Token}
  {p : Program} {ts us rest names : List Token}

theorem isStatement_of_importStatement (hrest : s.rest = keyword :: rest) (hkeyword : keyword.isKeyword "import")
    (hq : s.Quiet (importStatement s).2) :
    ∃ ts i, s.rest = ts ++ (importStatement s).2.rest ∧ (importStatement s).1 = some i ∧
      IsStatement n ts ⟨[i.path], [], []⟩ := by
  have h₁ := s.extends_advance
  have h₂ := h₁.trans (extends_advance _)
  have h₃ := h₂.trans (extends_advance _)
  unfold importStatement at hq ⊢
  dsimp only at hq ⊢
  cases hopen : s.advance.atMark "(" with
  | false =>
    rw [if_pos (by simp [hopen])] at hq
    exact (hq.not_reportNext h₁ (extends_recover _)).elim
  | true =>
    rw [if_neg (by simp [hopen])] at hq ⊢
    obtain ⟨opening, rest', hrest₁, hopening⟩ := exists_of_atMark hopen
    cases hrest₂ : s.advance.advance.rest with
    | nil =>
      rw [hrest₂] at hq
      exact (hq.not_reportNext h₂ (extends_recover _)).elim
    | cons path rest₃ =>
      rw [hrest₂] at hq
      dsimp only at hq ⊢
      by_cases hkind : path.kind = .string
      · rw [if_neg (by simp [hkind])] at hq ⊢
        cases hclose : s.advance.advance.advance.atMark ")" with
        | false =>
          rw [if_neg (by simp [hclose])] at hq
          exact (hq.not_reportNext h₃
            ((extends_recover _).trans (extends_count _))).elim
        | true =>
          rw [hclose, if_pos rfl] at hq
          rw [if_pos rfl]
          obtain ⟨closing, rest₄, hrest₃, hclosing⟩ := exists_of_atMark hclose
          have hend := extends_endStatement "import statement" s.advance.advance.advance.advance
          have h₄ := h₃.trans (extends_advance _)
          obtain ⟨hq', -⟩ := hq.split (h₄.trans hend) (extends_count _)
          obtain ⟨-, hq''⟩ := hq'.split h₄ hend
          obtain ⟨-, semicolon, hrest₄, hsemicolon⟩ := exists_of_endStatement hq''
          refine ⟨[keyword, opening, path, closing, semicolon], _, ?_, rfl, by simp, ?_⟩
          · have h₁' : rest = opening :: rest' := (rest_advance_of_rest hrest).symm.trans hrest₁
            have h₂' : rest' = path :: rest₃ := (rest_advance_of_rest hrest₁).symm.trans hrest₂
            have h₃' : rest₃ = closing :: rest₄ := (rest_advance_of_rest hrest₂).symm.trans hrest₃
            have h₄' := (rest_advance_of_rest hrest₃).symm.trans hrest₄
            rw [hrest, h₁', h₂', h₃', h₄']
            rfl
          · intro us p h
            exact .importing hkeyword hopening hkind hclosing hsemicolon h
      · rw [if_pos (by simp [hkind])] at hq
        exact (hq.not_reportNext h₂ (extends_recover _)).elim

theorem isStatement_of_declareStatement (hrest : s.rest = keyword :: rest)
    (hkeyword : keyword.isKeyword "declare") (hq : s.Quiet (declareStatement s).2) :
    ∃ ts i, s.rest = ts ++ (declareStatement s).2.rest ∧ (declareStatement s).1 = some i ∧
      IsStatement n ts ⟨[], [(i.key, i.value)], []⟩ := by
  unfold declareStatement at hq ⊢
  dsimp only at hq ⊢
  rw [rest_advance_of_rest hrest] at hq ⊢
  have htokens := takeWhile_append_dropWhile (p := fun t : Token => t.kind == .identifier) (l := rest)
  have hnames : ∀ name ∈ rest.takeWhile (·.kind == .identifier), name.kind = .identifier := by
    intro name hname
    have hall := all_takeWhile (p := fun t : Token => t.kind == .identifier) (l := rest)
    simpa using all_eq_true.mp hall name hname
  -- From here on only the split of the tokens into the names of the key and the others counts.
  generalize rest.takeWhile (·.kind == .identifier) = names at hq htokens hnames ⊢
  generalize rest.dropWhile (·.kind == .identifier) = left at htokens
  have hread : s.Extends (names.foldl (fun s _ => s.advance) s.advance) :=
    s.extends_advance.trans (extends_foldl_advance _ _)
  have hleft : (names.foldl (fun s _ => s.advance) s.advance).rest = left := by
    rw [rest_foldl_advance, rest_advance_of_rest hrest, ← htokens, drop_left]
  generalize names.foldl (fun s _ => s.advance) s.advance = t at hq hread hleft ⊢
  cases left with
  | nil =>
    rw [hleft] at hq
    exact (hq.not_reportNext hread (extends_recover _)).elim
  | cons value left =>
    rw [hleft] at hq ⊢
    dsimp only at hq ⊢
    by_cases hfits : (names.isEmpty || decide (value.kind ≠ .string))
    · rw [if_pos hfits] at hq
      exact (hq.not_reportNext hread (extends_recover _)).elim
    · rw [if_neg hfits] at hq ⊢
      have hfits' : names ≠ [] ∧ value.kind = .string := by simpa using hfits
      have hend := extends_endStatement "declaration" t.advance
      have hread' := hread.trans t.extends_advance
      obtain ⟨hq', -⟩ := hq.split (hread'.trans hend) (extends_count _)
      obtain ⟨-, hq''⟩ := hq'.split hread' hend
      obtain ⟨-, semicolon, hrest', hsemicolon⟩ := exists_of_endStatement hq''
      rw [rest_advance_of_rest hleft] at hrest'
      refine ⟨keyword :: (names ++ [value, semicolon]), _, ?_, rfl, by simp, ?_⟩
      · rw [hrest, ← htokens, hrest']
        simp
      · intro us p h
        have hder := Statements.declaring hkeyword hfits'.1 hnames hfits'.2 hsemicolon h
        simpa [Tree.append] using hder

/-- What a quiet round takes is a statement, which it adds to the program. -/
theorem isStatement_of_round (hrest : s.rest = token :: rest) (hq : s.Quiet (round d token p s).2) :
    ∃ ts q, s.rest = ts ++ (round d token p s).2.rest ∧ IsStatement (s.levels d) ts q ∧
      (round d token p s).1.tree = p.tree.append q := by
  unfold round at hq ⊢
  by_cases himport : token.isKeyword "import"
  · rw [if_pos himport] at hq ⊢
    obtain ⟨ts, i, hts, hsome, hder⟩ := isStatement_of_importStatement hrest himport hq
    refine ⟨ts, _, hts, hder, ?_⟩
    dsimp only
    rw [hsome]
    exact Program.tree_add_import p i
  · rw [if_neg himport] at hq ⊢
    by_cases hdeclare : token.isKeyword "declare"
    · rw [if_pos hdeclare] at hq ⊢
      obtain ⟨ts, i, hts, hsome, hder⟩ := isStatement_of_declareStatement hrest hdeclare hq
      refine ⟨ts, _, hts, hder, ?_⟩
      dsimp only
      rw [hsome]
      exact Program.tree_add_declaration p i
    · rw [if_neg hdeclare] at hq ⊢
      by_cases hname : token.kind = .identifier
      · rw [if_pos hname] at hq ⊢
        obtain ⟨_, hread⟩ := gives_definition d token s
        obtain ⟨-, ts, hts, hder⟩ := hread.sound hq rfl rest hrest hname
        refine ⟨token :: ts, _, hts, ⟨by simp, ?_⟩, Program.tree_add_definition p _⟩
        intro us q h
        simpa [Tree.append] using Statements.defining hder h
      · rw [if_neg hname] at hq
        split at hq
        · exact (hq.not_report (.refl s) (extends_advance _)).elim
        · exact (hq.not_report (.refl s) (extends_recover _)).elim

/-- What is read without a finding derives from the grammar. -/
theorem derives_of_statements (hfuel : s.rest.length ≤ fuel) (hq : s.Quiet (statements d fuel p s).2) :
    ∃ q, Statements (s.levels d) s.rest q ∧ (statements d fuel p s).1.tree = p.tree.append q := by
  induction fuel generalizing p s with
  | zero =>
    have hnil : s.rest = [] := length_eq_zero_iff.mp (by omega)
    exact ⟨_, hnil ▸ .nil, (Tree.append_empty p.tree).symm⟩
  | succ fuel ih =>
    rw [statements] at hq ⊢
    cases hrest : s.rest with
    | nil => exact ⟨_, .nil, (Tree.append_empty p.tree).symm⟩
    | cons token rest =>
      rw [hrest] at hq
      dsimp only at hq ⊢
      have hround := extends_round d token p s
      obtain ⟨hq₁, hq₂⟩ := hq.split hround (extends_statements d fuel _ _)
      obtain ⟨ts, q, hts, ⟨hne, hder⟩, htree⟩ := isStatement_of_round hrest hq₁
      -- A statement has at least one token, so the fuel lasts for the others.
      have hlen : (round d token p s).2.rest.length ≤ fuel := by
        have hpos := length_pos_iff.mpr hne
        rw [hts, length_append] at hfuel
        omega
      obtain ⟨q', hder', htree'⟩ := ih hlen hq₂
      rw [hround.levels d] at hder'
      refine ⟨q.append q', ?_, ?_⟩
      · rw [← hrest, hts]
        exact hder _ _ hder'
      · rw [htree', htree, Tree.append_assoc]

/-! ## A statement is taken by a quiet round -/

/-- What comes before the end of an import. -/
theorem importStatement_of_tokens (hrest : s.rest = keyword :: opening :: path :: closing :: ts)
    (hopening : opening.isMark "(") (hpath : path.kind = .string) (hclosing : closing.isMark ")")
    {u : State} (hend : (endStatement "import statement" s.advance.advance.advance.advance).2 = u) :
    importStatement s = (some ⟨u.newMark keyword, unquote path.text⟩, u.count) := by
  have h₁ : s.Moves s.advance _ := (hrest ▸ State.Moves.refl s).advance
  have h₂ := h₁.advance
  have h₃ := h₂.advance
  have hpeek : s.peek = some keyword := by rw [peek, hrest]; rfl
  unfold importStatement
  dsimp only
  rw [atMark_of_rest h₁.rest, hopening, if_neg (by simp), h₂.rest]
  dsimp only
  rw [if_neg (by simp [hpath]), atMark_of_rest h₃.rest, if_pos hclosing, hend, hpeek]

theorem round_of_importing (hrest : s.rest = keyword :: opening :: path :: closing :: semicolon :: ts)
    (hkeyword : keyword.isKeyword "import") (hopening : opening.isMark "(") (hpath : path.kind = .string)
    (hclosing : closing.isMark ")") (hsemicolon : semicolon.isMark ";") :
    s.Moves (round d keyword p s).2 ts ∧
      (round d keyword p s).1.tree = p.tree.append ⟨[unquote path.text], [], []⟩ := by
  have hmoves : s.Moves s.advance.advance.advance.advance (semicolon :: ts) :=
    (hrest ▸ State.Moves.refl s).advance.advance.advance.advance
  unfold round
  rw [if_pos hkeyword, importStatement_of_tokens hrest hopening hpath hclosing
    (by rw [endStatement_of_semicolon hmoves.rest hsemicolon])]
  exact ⟨hmoves.advance.count, Program.tree_add_import p _⟩

theorem moves_foldl_advance (h : s.rest = names ++ rest) : s.Moves (names.foldl (fun s _ => s.advance) s) rest := by
  induction names generalizing s with
  | nil =>
    have hrest : s.rest = rest := h
    exact hrest ▸ State.Moves.refl s
  | cons name names ih =>
    have hrest : s.rest = name :: (names ++ rest) := h
    exact (hrest ▸ State.Moves.refl s).advance.trans (ih (rest_advance_of_rest hrest))

/-- What comes before the end of a declaration. -/
theorem declareStatement_of_tokens (hrest : s.rest = keyword :: (names ++ value :: ts)) (hne : names ≠ [])
    (hnames : ∀ name ∈ names, name.kind = .identifier) (hvalue : value.kind = .string) :
    ∃ t, s.Moves t ts ∧ t.lastId = s.lastId ∧ t.last = some value ∧ ∀ u, (endStatement "declaration" t).2 = u →
      declareStatement s
        = (some ⟨u.newMark keyword, " ".intercalate (names.map (·.text)), unquote value.text⟩, u.count) := by
  have hrest' := rest_advance_of_rest hrest
  have htake : s.advance.rest.takeWhile (·.kind == .identifier) = names := by
    rw [hrest', takeWhile_append_of_pos (by simpa using hnames),
      takeWhile_cons_of_neg (by simp [hvalue]), append_nil]
  have hmoves : s.Moves (names.foldl (fun s _ => s.advance) s.advance) (value :: ts) :=
    (hrest ▸ State.Moves.refl s).advance.trans (moves_foldl_advance hrest')
  have hpeek : s.peek = some keyword := by rw [peek, hrest]; rfl
  have hfold (names : List Token) (s : State) : (names.foldl (fun s _ => s.advance) s).lastId = s.lastId := by
    induction names generalizing s with
    | nil => rfl
    | cons _ names ih => rw [foldl_cons, ih, lastId_advance]
  refine ⟨_, hmoves.advance, ?_, ?_, fun u hu => ?_⟩
  · rw [lastId_advance, hfold, lastId_advance]
  · rw [advance, hmoves.rest]
  · unfold declareStatement
    dsimp only
    rw [htake, hmoves.rest]
    dsimp only
    rw [if_neg (by simp [hne, hvalue]), hu, hpeek]

theorem round_of_declaring (hrest : s.rest = keyword :: (names ++ value :: semicolon :: ts))
    (hkeyword : keyword.isKeyword "declare") (hne : names ≠ [])
    (hnames : ∀ name ∈ names, name.kind = .identifier) (hvalue : value.kind = .string)
    (hsemicolon : semicolon.isMark ";") :
    s.Moves (round d keyword p s).2 ts ∧ (round d keyword p s).1.tree
      = p.tree.append ⟨[], [(" ".intercalate (names.map (·.text)), unquote value.text)], []⟩ := by
  obtain ⟨t, hmoves, -, -, hread⟩ := declareStatement_of_tokens hrest hne hnames hvalue
  unfold round
  rw [if_neg (by simp [isKeyword_of_isKeyword hkeyword]), if_pos hkeyword,
    hread _ (by rw [endStatement_of_semicolon hmoves.rest hsemicolon])]
  exact ⟨hmoves.advance.count, Program.tree_add_declaration p _⟩

theorem round_of_defining {e : Phrase} (h : Grammar.Definition n ts e) (hrest : s.rest = ts ++ us)
    (hlevels : s.levels d = n) :
    ∃ token rest, s.rest = token :: rest ∧ s.Moves (round d token p s).2 us ∧
      (round d token p s).1.tree = p.tree.append ⟨[], [], [e]⟩ := by
  obtain ⟨name, rest, rfl, hname, hread⟩ := completeDefinition (d := d) h
  obtain ⟨definition, t, hgives, hmoves, hphrase⟩ := hread s us ⟨hrest, hlevels⟩
  refine ⟨name, rest ++ us, hrest, ?_⟩
  have hkeyword (text : String) : ¬name.isKeyword text := by
    simp [isKeyword_eq_false, hname]
  unfold round
  rw [if_neg (hkeyword _), if_neg (hkeyword _), if_pos hname, hgives.definition_eq, ← hphrase]
  exact ⟨hmoves, Program.tree_add_definition p _⟩

/-- The statements `us` are read without a finding as the tree `q`, whatever was read before them. -/
def CompleteStatements (d : Int) (n : Nat) (us : List Token) (q : Tree) : Prop :=
  ∀ fuel p s, s.rest = us → s.levels d = n → us.length ≤ fuel →
    s.Moves (statements d fuel p s).2 [] ∧ (statements d fuel p s).1.tree = p.tree.append q

/-- A round that takes a statement in front of others leads on to these. -/
theorem CompleteStatements.round {q' : Tree} (h : CompleteStatements d n us q) (hrest : s.rest = token :: rest)
    (hlevels : s.levels d = n) (hlen : us.length < s.rest.length) (hfuel : s.rest.length ≤ fuel)
    (hround : s.Moves (round d token p s).2 us ∧ (round d token p s).1.tree = p.tree.append q') :
    s.Moves (statements d fuel p s).2 [] ∧
      (statements d fuel p s).1.tree = p.tree.append (q'.append q) := by
  obtain ⟨hmoves, htree⟩ := hround
  obtain ⟨fuel, rfl⟩ : ∃ k, fuel = k + 1 := ⟨fuel - 1, by omega⟩
  obtain ⟨hmoves', htree'⟩ := h fuel (Parser.round d token p s).1 (Parser.round d token p s).2
    hmoves.rest ((hmoves.levels d).trans hlevels) (by omega)
  rw [statements, hrest]
  refine ⟨hmoves.trans hmoves', ?_⟩
  rw [htree', htree, Tree.append_assoc]

/-- What derives from the grammar is read without a finding, as the tree of the derivation. -/
theorem completeStatements (h : Statements n ts q) : CompleteStatements d n ts q := by
  induction h with
  | nil =>
    intro fuel p s hrest _ _
    have hstop : statements d fuel p s = (p, s) := by
      cases fuel with
      | zero => rfl
      | succ fuel => rw [statements, hrest]
    rw [hstop, Tree.append_empty]
    exact ⟨hrest ▸ State.Moves.refl s, rfl⟩
  | importing hkeyword hopening hpath hclosing hsemicolon _ ih =>
    intro fuel p s hrest hlevels hfuel
    exact ih.round hrest hlevels (by simp [hrest]; omega) (by rwa [hrest])
      (round_of_importing hrest hkeyword hopening hpath hclosing hsemicolon)
  | declaring hkeyword hne hnames hvalue hsemicolon _ ih =>
    intro fuel p s hrest hlevels hfuel
    exact ih.round hrest hlevels (by simp [hrest]; omega) (by rwa [hrest])
      (round_of_declaring hrest hkeyword hne hnames hvalue hsemicolon)
  | @defining ts us e q hdef _ ih =>
    intro fuel p s hrest hlevels hfuel
    obtain ⟨token, rest, hrest', hround⟩ := round_of_defining (p := p) hdef hrest hlevels
    obtain ⟨name, us', hts, -, -⟩ := completeDefinition (d := d) hdef
    have hlen : us.length < s.rest.length := by
      rw [hrest, hts]
      simp only [length_append, length_cons]
      omega
    exact ih.round hrest' hlevels hlen (by rwa [hrest]) hround

/-! ## Programs -/

theorem levels_start (d : Int) (ts : List Token) : (start ts).levels d = d.toNat := by
  simp [levels, start]

end Patchbay.Parser

namespace Patchbay.Program

open Patchbay.Parser Patchbay.Grammar

variable {d : Int} {p : Program} {ts : List Token}

/-- What reading gives is the end of a run that met no oversized number. -/
theorem run_of_parse {findings : List Finding} (h : Program.parse ts d = .ok (p, findings)) :
    (run d ts).2.oversized = false ∧ (run d ts).1 = p ∧ (run d ts).2.findings = findings := by
  unfold Program.parse at h
  dsimp only at h
  split at h
  · simp at h
  · rename_i hover
    have h' : (run d ts).1 = p ∧ (run d ts).2.findings = findings := by simpa using h
    exact ⟨by simpa using hover, h'⟩

/-- A program that is read without a finding has a tree that its tokens derive. -/
theorem derives_of_parse (h : Program.parse ts d = .ok (p, [])) : Statements d.toNat ts p.tree := by
  obtain ⟨hover, rfl, hfindings⟩ := run_of_parse h
  have hq : (State.start ts).Quiet (run d ts).2 := ⟨hfindings, hover⟩
  obtain ⟨q, hder, htree⟩ := derives_of_statements (Nat.le_refl _) hq
  rw [levels_start] at hder
  have hq' : (run d ts).1.tree = q := htree
  rw [hq']
  exact hder

/-- Tokens that derive from the grammar are read without a finding as the tree of the derivation. -/
theorem parse_of_derives {q : Tree} (h : Statements d.toNat ts q) :
    ∃ p, Program.parse ts d = .ok (p, []) ∧ p.tree = q := by
  obtain ⟨hmoves, htree⟩ := completeStatements (d := d) h ts.length .empty (.start ts) rfl
    (levels_start d ts) (Nat.le_refl _)
  have hrun : (run d ts).2.oversized = false ∧ (run d ts).2.findings = [] :=
    ⟨hmoves.oversized, hmoves.findings⟩
  refine ⟨(run d ts).1, ?_, htree⟩
  simp [Program.parse, hrun]

/-- Reading stops only at a number that is too large for a double. -/
theorem parse_eq_ok (d : Int) (h : ∀ t ∈ ts, t.kind = .number → (Number.ofNumeral? t.text.toList).isSome) :
    Program.parse ts d = .ok ((run d ts).1, (run d ts).2.findings) := by
  have hover : (run d ts).2.oversized = false :=
    (extends_statements d ts.length .empty (.start ts)).convertible h
  simp [Program.parse, hover]

/-- Reading tokens whose numbers have values gives a program. No finding is made exactly when the tokens
derive from the grammar with at most `d` levels of expressions, and then the program has the tree of
the derivation. -/
theorem parse_accepts_iff_derives (ts : List Token) (d : Int)
    (h : ∀ t ∈ ts, t.kind = .number → (Number.ofNumeral? t.text.toList).isSome = true) :
    ∃ p findings, Program.parse ts d = .ok (p, findings) ∧
      (findings = [] ↔ ∃ q, Statements d.toNat ts q) ∧ ∀ q, Statements d.toNat ts q → p.tree = q := by
  have hok := parse_eq_ok d h
  refine ⟨_, _, hok, ⟨?_, ?_⟩, ?_⟩
  · intro hnil
    rw [hnil] at hok
    exact ⟨_, derives_of_parse hok⟩
  · rintro ⟨q, hq⟩
    obtain ⟨p, hparse, -⟩ := parse_of_derives hq
    rw [hok] at hparse
    simp only [Except.ok.injEq, Prod.mk.injEq] at hparse
    exact hparse.2
  · intro q hq
    obtain ⟨p, hparse, htree⟩ := parse_of_derives hq
    rw [hok] at hparse
    simp only [Except.ok.injEq, Prod.mk.injEq] at hparse
    rw [hparse.1, htree]

/-- The tokens of `y = 2 - -3;`: the first minus sign subtracts, the second belongs to its number. -/
def differenceTokens : List Token :=
  [⟨.identifier, "y", ⟨1, 1⟩, ⟨1, 2⟩⟩, ⟨.operator, "=", ⟨1, 3⟩, ⟨1, 4⟩⟩, ⟨.number, "2", ⟨1, 5⟩, ⟨1, 6⟩⟩,
    ⟨.operator, "-", ⟨1, 7⟩, ⟨1, 8⟩⟩, ⟨.operator, "-", ⟨1, 9⟩, ⟨1, 10⟩⟩,
    ⟨.number, "3", ⟨1, 10⟩, ⟨1, 11⟩⟩, ⟨.punctuation, ";", ⟨1, 11⟩, ⟨1, 12⟩⟩]

theorem parse_accepts_difference :
    (∀ t ∈ differenceTokens, t.kind = .number → (Number.ofNumeral? t.text.toList).isSome = true) ∧
      ∃ p findings, Program.parse differenceTokens 1 = .ok (p, findings) ∧
        (findings = [] ↔ ∃ q, Statements 1 differenceTokens q) ∧
        ∀ q, Statements 1 differenceTokens q → p.tree = q := by
  have h : ∀ t ∈ differenceTokens,
      t.kind = .number → (Number.ofNumeral? t.text.toList).isSome = true := by
    decide +kernel
  exact ⟨h, parse_accepts_iff_derives differenceTokens 1 h⟩

end Patchbay.Program
