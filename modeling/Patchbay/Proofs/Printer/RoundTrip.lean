import Patchbay.Proofs.Printer.Derivation

/-!
# Printed programs are read back

A program that was read without a finding is printed as a text that is cut and read without a finding, as a
program with the same tree, which is printed as the same text.

The printer puts imports first, then declarations, then definitions. The tree of a program keeps these apart,
so their order among each other in the first text does not matter.
-/

open List

namespace Patchbay.Phrase

open Scan Grammar

/-! ## Statements -/

/-- The words of an import. -/
def importWords (path : String) : List Word :=
  [.keyword "import", .mark "(", ⟨.string, quote path⟩, .mark ")", .mark ";"]

/-- A declaration, and its words. -/
inductive PrintsDeclaration : String × String → List Word → Prop
  | intro {names : List String} {value : String} :
      names ≠ [] → (∀ name ∈ names, Steady .identifier name.toList) →
      PrintsDeclaration (" ".intercalate names, value)
        (.keyword "declare" :: (names.map (Word.mk .identifier) ++ [⟨.string, quote value⟩, .mark ";"]))

/-- Declarations, and the words of all of them. -/
inductive PrintsDeclarations : List (String × String) → List Word → Prop
  | nil : PrintsDeclarations [] []
  | cons {d : String × String} {ds : List (String × String)} {us vs : List Word} :
      PrintsDeclaration d us → PrintsDeclarations ds vs → PrintsDeclarations (d :: ds) (us ++ vs)

variable {n : Nat} {ws : List Word} {ts us : List Token} {defs : List Phrase} {ds : List (String × String)}

/-- The statements that steady tokens derive can be printed. -/
theorem prints_of_statements {q : Tree} (h : Statements n ts q) (hs : ∀ t ∈ ts, Steady t.kind t.text.toList) :
    (∃ us, PrintsDeclarations q.declarations us) ∧ ∃ vs, PrintsDefinitions q.definitions vs := by
  induction h with
  | nil => exact ⟨⟨_, .nil⟩, ⟨_, .nil⟩⟩
  | importing _ _ _ _ _ _ ih => exact ih fun t ht => hs t (by simp [ht])
  | @declaring keyword value semicolon names ts q _ hne hnames _ _ _ ih =>
    obtain ⟨⟨us, hus⟩, hdefinitions⟩ := ih fun t ht => hs t (by simp [ht])
    have hnames' : ∀ name ∈ names.map (·.text), Steady .identifier name.toList := by
      intro name hname
      obtain ⟨t, ht, rfl⟩ := mem_map.mp hname
      have hsteady := hs t (by simp [ht])
      rwa [hnames t ht] at hsteady
    exact ⟨⟨_, .cons (.intro (by simpa using hne) hnames') hus⟩, hdefinitions⟩
  | defining hdef _ ih =>
    obtain ⟨hdeclarations, vs, hvs⟩ := ih fun t ht => hs t (by simp [ht])
    obtain ⟨us, hus⟩ := prints_of_definition hdef fun t ht => hs t (by simp [ht])
    exact ⟨hdeclarations, ⟨_, .cons hus hvs⟩⟩

/-! ## Texts of statements -/

theorem spells_import (path : String) : Spells (Phrase.importing path).text (importWords path) := by
  have himport : Spells "import" [.keyword "import"] :=
    .word (steady_of_alone (c := 'i') (by decide))
  have hspells := (himport.enclosed (.word (steady_quote path))).semicolon
  have htext : (Phrase.importing path).text = "import" ++ "(" ++ quote path ++ ")" ++ ";" := by
    rw [Phrase.text, ← String.toList_inj]
    simp
  rw [htext]
  exact hspells

theorem PrintsDeclaration.spells {d : String × String} (h : PrintsDeclaration d ws) :
    Spells (Phrase.declaration d.1 d.2).text ws := by
  cases h with
  | @intro names value hne hnames =>
    have hdeclare : Spells "declare" [.keyword "declare"] :=
      .word (steady_of_alone (c := 'd') (by decide))
    have hkey : SpellsAll names (names.map (Word.mk .identifier)) := by
      clear hne
      induction names with
      | nil => exact .nil
      | cons name names ih =>
        exact .cons (.word (hnames name (by simp))) (ih fun other hother => hnames other (by simp [hother]))
    have hspells := ((hdeclare.spaced hkey.spaced).spaced (.word (steady_quote value))).semicolon
    have htext : (Phrase.declaration (" ".intercalate names) value).text
        = "declare" ++ " " ++ " ".intercalate names ++ " " ++ quote value ++ ";" := by
      rw [Phrase.text, ← String.toList_inj]
      simp
    rw [htext]
    simpa using hspells

theorem texts_append (ps qs : List Phrase) : texts (ps ++ qs) = texts ps ++ texts qs := by
  induction ps with
  | nil => rfl
  | cons p ps ih => simp [texts, ih]

theorem spellsAll_imports (paths : List String) :
    SpellsAll (texts (paths.map Phrase.importing)) (paths.flatMap importWords) := by
  induction paths with
  | nil => exact .nil
  | cons path paths ih => exact .cons (spells_import path) ih

theorem PrintsDeclarations.spellsAll (h : PrintsDeclarations ds ws) :
    SpellsAll (texts (ds.map fun d => Phrase.declaration d.1 d.2)) ws := by
  induction h with
  | nil => exact .nil
  | cons hd _ ih => exact .cons hd.spells ih

/-! ## Statements derived from their words -/

theorem statements_of_definitions {ds : List Phrase} (h : Definitions n ts ds) : Statements n ts ⟨[], [], ds⟩ := by
  induction ds generalizing ts with
  | nil =>
    cases h
    exact .nil
  | cons d ds ih =>
    cases h with
    | cons hd hds => exact .defining hd (ih hds)

theorem statements_of_declarations (h : PrintsDeclarations ds ws) (hts : ts.map Token.word = ws)
    (hus : Statements n us ⟨[], [], defs⟩) : Statements n (ts ++ us) ⟨[], ds, defs⟩ := by
  induction h generalizing ts with
  | nil =>
    obtain rfl := map_eq_nil_iff.mp hts
    exact hus
  | cons hd _ ih =>
    obtain ⟨ts₁, ts₂, rfl, hts₁, hts₂⟩ := map_eq_append_iff.mp hts
    have hmore := ih hts₂
    cases hd with
    | @intro names value hne hnames =>
      obtain ⟨keyword, ts₃, rfl, hkeyword, hts₃⟩ := map_eq_cons_iff.mp hts₁
      obtain ⟨ns, ts₄, rfl, hns, hts₄⟩ := map_eq_append_iff.mp hts₃
      obtain ⟨t, ts₅, rfl, ht, hts₅⟩ := map_eq_cons_iff.mp hts₄
      obtain ⟨semicolon, rfl, hsemicolon⟩ := map_eq_singleton_iff.mp hts₅
      have hkinds : ∀ name ∈ ns, name.kind = .identifier := by
        intro name hname
        have hword : name.word ∈ names.map (Word.mk .identifier) := hns ▸ mem_map_of_mem hname
        obtain ⟨text, -, heq⟩ := mem_map.mp hword
        exact (congrArg Word.kind heq).symm
      have htexts : ns.map (·.text) = names := by
        have hwords := congrArg (List.map Word.text) hns
        simpa [Function.comp_def, Token.word] using hwords
      have hstring : t.kind = .string ∧ t.text = quote value := by simpa [Token.word] using ht
      have hns' : ns ≠ [] := by
        rintro rfl
        exact hne htexts.symm
      have hder := Statements.declaring (isKeyword_of_word hkeyword) hns' hkinds hstring.1
        (isMark_of_word hsemicolon) hmore
      rw [htexts, hstring.2, Parser.unquote_quote] at hder
      simpa using hder

theorem statements_of_imports {paths : List String} (hts : ts.map Token.word = paths.flatMap importWords)
    (hus : Statements n us ⟨[], ds, defs⟩) : Statements n (ts ++ us) ⟨paths, ds, defs⟩ := by
  induction paths generalizing ts with
  | nil =>
    obtain rfl := map_eq_nil_iff.mp hts
    exact hus
  | cons path paths ih =>
    rw [flatMap_cons, importWords] at hts
    obtain ⟨keyword, ts₁, rfl, hkeyword, hts₁⟩ := map_eq_cons_iff.mp hts
    obtain ⟨opening, ts₂, rfl, hopening, hts₂⟩ := map_eq_cons_iff.mp hts₁
    obtain ⟨t, ts₃, rfl, ht, hts₃⟩ := map_eq_cons_iff.mp hts₂
    obtain ⟨closing, ts₄, rfl, hclosing, hts₄⟩ := map_eq_cons_iff.mp hts₃
    obtain ⟨semicolon, ts₅, rfl, hsemicolon, hts₅⟩ := map_eq_cons_iff.mp hts₄
    have hstring : t.kind = .string ∧ t.text = quote path := by simpa [Token.word] using ht
    have hder := Statements.importing (isKeyword_of_word hkeyword) (isMark_of_word hopening) hstring.1
      (isMark_of_word hclosing) (isMark_of_word hsemicolon) (ih hts₅)
    rw [hstring.2, Parser.unquote_quote] at hder
    exact hder

/-! ## Nothing stops the printer -/

theorem fault?_number {text : String} (h : text ≠ "") (value : Binary64) :
    (Phrase.number value text).fault? = none := by
  simp [Phrase.fault?, h]

mutual

theorem Prints.fault? {p : Phrase} {ws : List Word} : Prints p ws → p.fault? = none
  | .name _ _ => rfl
  | .number hsteady _ => fault?_number hsteady.ne_empty _
  | .negative _ _ => fault?_number (minus_ne_empty _) _
  | .string => rfl
  | .call _ _ h => by
    rw [Phrase.fault?]
    exact h.faults?
  | .compose hl hr => by
    rw [Phrase.fault?, hl.fault?, hr.fault?]
    rfl
  | .block h hlocals => by
    rw [Phrase.fault?, h.fault?, hlocals.faults?]
    rfl

theorem PrintsArguments.faults? {args : List Phrase} {ws : List Word} :
    PrintsArguments args ws → Phrase.faults? args = none
  | .last h => by
    rw [Phrase.faults?, h.fault?]
    rfl
  | .more h hmore => by
    rw [Phrase.faults?, h.fault?, hmore.faults?]
    rfl

theorem PrintsDefinition.fault? {d : Phrase} {ws : List Word} : PrintsDefinition d ws → d.fault? = none
  | .intro _ _ h => by
    rw [Phrase.fault?]
    exact h.fault?

theorem PrintsDefinitions.faults? {ds : List Phrase} {ws : List Word} :
    PrintsDefinitions ds ws → Phrase.faults? ds = none
  | .nil => rfl
  | .cons h hmore => by
    rw [Phrase.faults?, h.fault?, hmore.faults?]
    rfl

end

theorem faults?_append {ps qs : List Phrase} (hp : ∀ p ∈ ps, p.fault? = none) (hq : faults? qs = none) :
    faults? (ps ++ qs) = none := by
  induction ps with
  | nil => exact hq
  | cons p ps ih =>
    rw [cons_append, faults?, ih fun x hx => hp x (by simp [hx]), hp p (by simp)]
    rfl

end Patchbay.Phrase

namespace Patchbay

open Scan Grammar Phrase

/-! ## Sameness -/

variable {b : Box} {t : Tree} {q : Phrase} {name text : String} {p : Program} {value : Binary64} {us vs : List Word}
  {qs : List Phrase}

theorem Number.ofNumeral?_sameNumber {text : List Char} (h : Number.ofNumeral? text = some value) :
    value.sameNumber value := by
  cases value with
  | finite | infinite => simp [Binary64.sameNumber]
  | nan =>
    -- The one value that differs from itself has no numeral.
    have hunits (negative : Bool) (num den : Nat) : Binary64.ofUnits negative num den ≠ .nan := by
      unfold Binary64.ofUnits
      dsimp only
      split <;> simp
    have hdecimal (negative : Bool) (digits : Nat) (e : Int) :
        Binary64.ofDecimal negative digits e ≠ .nan := by
      unfold Binary64.ofDecimal
      dsimp only
      split
      · simp
      · split
        · simp
        · split
          · simp
          · split <;> exact hunits _ _ _
    unfold Number.ofNumeral? at h
    split at h
    · split at h <;> simp at h
    · split at h <;> simp at h
    · split at h
      · exact absurd (Option.some.inj h) (hdecimal _ _ _)
      · simp at h

theorem Binary64.sameNumber_neg (h : value.sameNumber value) : (-value).sameNumber (-value) := by
  cases value with
  | finite negative units => exact decide_eq_true rfl
  | infinite negative => exact beq_self_eq_true _
  | nan => simp [Binary64.sameNumber] at h

/-! ### The box of a tree -/

theorem Box.eq_ref_of_phrase (h : b.phrase = .name name) : ∃ mark, b = .ref mark name := by
  cases b with
  | ref mark other =>
    obtain rfl : other = name := by simpa [Box.phrase] using h
    exact ⟨mark, rfl⟩
  | _ => simp [Box.phrase] at h

theorem Box.eq_number_of_phrase (h : b.phrase = .number value text) : ∃ mark, b = .number mark value text := by
  cases b with
  | number mark value' text' =>
    obtain ⟨rfl, rfl⟩ : value' = value ∧ text' = text := by simpa [Box.phrase] using h
    exact ⟨mark, rfl⟩
  | _ => simp [Box.phrase] at h

theorem Box.eq_string_of_phrase {value : String} (h : b.phrase = .string value) : ∃ mark, b = .string mark value := by
  cases b with
  | string mark other =>
    obtain rfl : other = value := by simpa [Box.phrase] using h
    exact ⟨mark, rfl⟩
  | _ => simp [Box.phrase] at h

theorem Box.eq_call_of_phrase (h : b.phrase = .call name qs) :
    ∃ mark args, b = .call mark name args ∧ Box.phrases args = qs := by
  cases b with
  | call mark other args =>
    obtain ⟨rfl, hargs⟩ : other = name ∧ Box.phrases args = qs := by simpa [Box.phrase] using h
    exact ⟨mark, args, rfl, hargs⟩
  | _ => simp [Box.phrase] at h

theorem Box.eq_compose_of_phrase {op : Operator} {p : Phrase} (h : b.phrase = .compose op p q) :
    ∃ mark left right, b = .compose mark op left right ∧ left.phrase = p ∧ right.phrase = q := by
  cases b with
  | compose mark other left right =>
    obtain ⟨rfl, hparts⟩ : other = op ∧ left.phrase = p ∧ right.phrase = q := by
      simpa [Box.phrase] using h
    exact ⟨mark, left, right, rfl, hparts⟩
  | _ => simp [Box.phrase] at h

theorem Box.eq_block_of_phrase {p : Phrase} (h : b.phrase = .block p qs) :
    ∃ mark body locals, b = .block mark body locals ∧ body.phrase = p ∧
      Definition.phrases locals = qs := by
  cases b with
  | block mark body locals => exact ⟨mark, body, locals, rfl, by simpa [Box.phrase] using h⟩
  | _ => simp [Box.phrase] at h

theorem Box.eq_cons_of_phrases {bs : List Box} (h : Box.phrases bs = q :: qs) :
    ∃ b cs, bs = b :: cs ∧ b.phrase = q ∧ Box.phrases cs = qs := by
  cases bs with
  | nil => simp [Box.phrases] at h
  | cons b cs => exact ⟨b, cs, rfl, by simpa [Box.phrases] using h⟩

theorem Definition.eq_of_phrase {d : Definition} {params : List String}
    (h : d.phrase = .definition name params (some q)) :
    ∃ mark body stop, d = ⟨mark, name, params, some body, stop⟩ ∧ body.phrase = q := by
  obtain ⟨mark, name', params', body, stop⟩ := d
  cases body with
  | none => simp [Definition.phrase] at h
  | some body =>
    obtain ⟨rfl, rfl, hbody⟩ : name' = name ∧ params' = params ∧ body.phrase = q := by
      simpa [Definition.phrase] using h
    exact ⟨mark, body, stop, rfl, hbody⟩

theorem Definition.eq_cons_of_phrases {ds : List Definition} (h : Definition.phrases ds = q :: qs) :
    ∃ d es, ds = d :: es ∧ d.phrase = q ∧ Definition.phrases es = qs := by
  cases ds with
  | nil => simp [Definition.phrases] at h
  | cons d es => exact ⟨d, es, rfl, by simpa [Definition.phrases] using h⟩

/-! ### Boxes with one tree -/

mutual

/-- Boxes with the same printed tree are the same. -/
theorem Box.same_of_prints {q : Phrase} {ws : List Word} :
    Prints q ws → ∀ b c : Box, b.phrase = q → c.phrase = q → b.same c
  | .name _ _, b, c, hb, hc => by
    obtain ⟨_, rfl⟩ := Box.eq_ref_of_phrase hb
    obtain ⟨_, rfl⟩ := Box.eq_ref_of_phrase hc
    simp [Box.same]
  | .number _ hvalue, b, c, hb, hc => by
    have hsame := Number.ofNumeral?_sameNumber hvalue
    obtain ⟨_, rfl⟩ := Box.eq_number_of_phrase hb
    obtain ⟨_, rfl⟩ := Box.eq_number_of_phrase hc
    simp [Box.same, hsame]
  | .negative _ hvalue, b, c, hb, hc => by
    have hsame := Binary64.sameNumber_neg (Number.ofNumeral?_sameNumber hvalue)
    obtain ⟨_, rfl⟩ := Box.eq_number_of_phrase hb
    obtain ⟨_, rfl⟩ := Box.eq_number_of_phrase hc
    simp [Box.same, hsame]
  | .string, b, c, hb, hc => by
    obtain ⟨_, rfl⟩ := Box.eq_string_of_phrase hb
    obtain ⟨_, rfl⟩ := Box.eq_string_of_phrase hc
    simp [Box.same]
  | .call _ _ h, b, c, hb, hc => by
    have hargs := Box.sameAll_of_prints h
    obtain ⟨_, xs, rfl, hxs⟩ := Box.eq_call_of_phrase hb
    obtain ⟨_, ys, rfl, hys⟩ := Box.eq_call_of_phrase hc
    simp [Box.same, hargs xs ys hxs hys]
  | .compose hl hr, b, c, hb, hc => by
    have hleft := Box.same_of_prints hl
    have hright := Box.same_of_prints hr
    obtain ⟨_, x, y, rfl, hx, hy⟩ := Box.eq_compose_of_phrase hb
    obtain ⟨_, u, v, rfl, hu, hv⟩ := Box.eq_compose_of_phrase hc
    simp [Box.same, hleft x u hx hu, hright y v hy hv]
  | .block h hlocals, b, c, hb, hc => by
    have hbody := Box.same_of_prints h
    have hdefs := Definition.sameAll_of_prints hlocals
    obtain ⟨_, x, ds, rfl, hx, hds⟩ := Box.eq_block_of_phrase hb
    obtain ⟨_, y, es, rfl, hy, hes⟩ := Box.eq_block_of_phrase hc
    simp [Box.same, hbody x y hx hy, hdefs ds es hds hes]

theorem Box.sameAll_of_prints {qs : List Phrase} {ws : List Word} :
    PrintsArguments qs ws → ∀ bs cs : List Box, Box.phrases bs = qs → Box.phrases cs = qs →
      Box.sameAll bs cs
  | .last h, bs, cs, hbs, hcs => by
    have hsame := Box.same_of_prints h
    obtain ⟨b, xs, rfl, hb, hxs⟩ := Box.eq_cons_of_phrases hbs
    obtain ⟨c, ys, rfl, hc, hys⟩ := Box.eq_cons_of_phrases hcs
    obtain rfl : xs = [] := by simpa [Box.phrases_eq_map] using hxs
    obtain rfl : ys = [] := by simpa [Box.phrases_eq_map] using hys
    simp [Box.sameAll, hsame b c hb hc]
  | .more h hmore, bs, cs, hbs, hcs => by
    have hsame := Box.same_of_prints h
    have hrest := Box.sameAll_of_prints hmore
    obtain ⟨b, xs, rfl, hb, hxs⟩ := Box.eq_cons_of_phrases hbs
    obtain ⟨c, ys, rfl, hc, hys⟩ := Box.eq_cons_of_phrases hcs
    simp [Box.sameAll, hsame b c hb hc, hrest xs ys hxs hys]

theorem Definition.same_of_prints {q : Phrase} {ws : List Word} :
    PrintsDefinition q ws → ∀ d e : Definition, d.phrase = q → e.phrase = q → d.same e
  | .intro _ _ h, d, e, hd, he => by
    have hbody := Box.same_of_prints h
    obtain ⟨_, x, _, rfl, hx⟩ := Definition.eq_of_phrase hd
    obtain ⟨_, y, _, rfl, hy⟩ := Definition.eq_of_phrase he
    simp [Definition.same, hbody x y hx hy]

theorem Definition.sameAll_of_prints {qs : List Phrase} {ws : List Word} :
    PrintsDefinitions qs ws → ∀ ds es : List Definition, Definition.phrases ds = qs →
      Definition.phrases es = qs → Definition.sameAll ds es
  | .nil, ds, es, hds, hes => by
    obtain rfl : ds = [] := by simpa [Definition.phrases_eq_map] using hds
    obtain rfl : es = [] := by simpa [Definition.phrases_eq_map] using hes
    simp [Definition.sameAll]
  | .cons h hmore, ds, es, hds, hes => by
    have hsame := Definition.same_of_prints h
    have hrest := Definition.sameAll_of_prints hmore
    obtain ⟨d, xs, rfl, hd, hxs⟩ := Definition.eq_cons_of_phrases hds
    obtain ⟨e, ys, rfl, he, hys⟩ := Definition.eq_cons_of_phrases hes
    simp [Definition.sameAll, hsame d e hd he, hrest xs ys hxs hys]

end

/-! ## Programs -/

/-- The phrases of a tree in the order they are printed. -/
def Grammar.Tree.phrases (t : Tree) : List Phrase :=
  t.imports.map Phrase.importing ++ (t.declarations.map (fun d => Phrase.declaration d.1 d.2) ++ t.definitions)

namespace Program

theorem phrase_eq_tree (p : Program) : p.phrase = .program p.tree.phrases := by
  simp [Program.phrase, Program.tree, Tree.phrases, Function.comp_def]

/-- Programs with one tree have one text. -/
theorem render_eq_of_tree {q : Program} (h : p.tree = q.tree) : p.render = q.render := by
  rw [Program.render, Program.render, phrase_eq_tree, phrase_eq_tree, h]

theorem render_of_prints (hdefs : PrintsDefinitions p.tree.definitions vs) :
    p.render = .ok ("\n".intercalate (texts p.tree.phrases) ++ "\n") := by
  have hfault : faults? p.tree.phrases = none := by
    have himports : ∀ q ∈ p.tree.imports.map Phrase.importing, q.fault? = none := by
      simp [Phrase.fault?]
    have hdeclarations : ∀ q ∈ p.tree.declarations.map (fun d => Phrase.declaration d.1 d.2),
        q.fault? = none := by
      intro q hq
      obtain ⟨d, -, rfl⟩ := mem_map.mp hq
      rfl
    exact faults?_append himports (faults?_append hdeclarations hdefs.faults?)
  rw [Program.render, phrase_eq_tree, Phrase.render, Phrase.fault?, hfault, Phrase.text]

theorem same_of_prints {q : Program} (hdefs : PrintsDefinitions p.tree.definitions vs) (h : q.tree = p.tree) :
    p.same q := by
  have hparts : q.imports.map (·.path) = p.imports.map (·.path) ∧
      (q.declarations.map fun d => (d.key, d.value)) = (p.declarations.map fun d => (d.key, d.value)) ∧
      Definition.phrases q.definitions = Definition.phrases p.definitions := by
    simpa [Program.tree] using h
  have hsame := Definition.sameAll_of_prints hdefs p.definitions q.definitions rfl hparts.2.2
  simp [Program.same, hparts.1, hparts.2.1, hsame]

/-- The printed text of a tree is cut into the words of its statements. -/
theorem scan_printed (hdecls : PrintsDeclarations t.declarations us) (hdefs : PrintsDefinitions t.definitions vs)
    (htext : text = "\n".intercalate (texts t.phrases) ++ "\n") :
    (scan text).1.map Token.word = t.imports.flatMap importWords ++ (us ++ vs) ∧ (scan text).2 = [] := by
  have hall : SpellsAll (texts t.phrases) (t.imports.flatMap importWords ++ (us ++ vs)) := by
    rw [Tree.phrases, texts_append, texts_append]
    exact (spellsAll_imports t.imports).append (hdecls.spellsAll.append hdefs.spellsAll)
  have hlines : Spells ("\n".intercalate (texts t.phrases)) _ := hall.joined rfl (by decide) (by decide)
  have hreads : Reads text.toList (t.imports.flatMap importWords ++ (us ++ vs)) := by
    -- The line break at the end delimits the last word.
    have hline := hlines ['\n'] [] (delimits_cons (by decide) []) (Reads.nil.gap (by decide))
    rw [append_nil] at hline
    rw [htext, String.toList_append]
    exact hline
  exact hreads.scan

/-- Tokens with the words of a tree derive it, if its levels are allowed. -/
theorem derives_of_printed (hdecls : PrintsDeclarations t.declarations us) (hdefs : PrintsDefinitions t.definitions vs)
    {ts : List Token} (hwords : ts.map Token.word = t.imports.flatMap importWords ++ (us ++ vs)) {n : Nat}
    (hn : nestings t.definitions ≤ n) : Statements n ts t := by
  obtain ⟨ts₁, ts₂, rfl, hts₁, hts₂⟩ := map_eq_append_iff.mp hwords
  obtain ⟨ts₃, ts₄, rfl, hts₃, hts₄⟩ := map_eq_append_iff.mp hts₂
  exact statements_of_imports hts₁ (statements_of_declarations hdecls hts₃
    (statements_of_definitions (hdefs.derives n ts₄ hn hts₄)))

/-- A program that is read without a finding comes from a text that is cut without one. -/
theorem parse_of_read {source : String} {d : Int} (h : Program.read source d = .ok (p, [])) :
    (scan source).2 = [] ∧ Program.parse (scan source).1 d = .ok (p, []) := by
  unfold Program.read at h
  cases hparse : Program.parse (scan source).1 d with
  | error fault => simp [hparse, Except.map] at h
  | ok result =>
    obtain ⟨q, findings⟩ := result
    simp only [hparse, Except.map, Except.ok.injEq, Prod.mk.injEq, append_eq_nil_iff] at h
    obtain ⟨rfl, hlexical, rfl⟩ := h
    exact ⟨hlexical, rfl⟩

/-- A program that was read without a finding is printed as a text that is cut without a finding. With
enough levels of expressions its tokens are read without a finding as the same program, which is printed as
the same text. -/
theorem parse_scan_render (source : String) (d : Int) (p : Program)
    (h : Program.read source d = .ok (p, [])) :
    ∃ text least, p.render = .ok text ∧ (scan text).2 = [] ∧ ∀ m : Int, least ≤ m →
      ∃ q, Program.parse (scan text).1 m = .ok (q, []) ∧ p.same q = true ∧ q.render = .ok text := by
  obtain ⟨-, hparse⟩ := parse_of_read h
  have hder := derives_of_parse hparse
  obtain ⟨⟨us, hdecls⟩, vs, hdefs⟩ := prints_of_statements hder fun t ht => steady_of_mem_scan ht
  have hrender := render_of_prints hdefs
  obtain ⟨hwords, hfindings⟩ := scan_printed hdecls hdefs rfl
  refine ⟨_, (nestings p.tree.definitions : Nat), hrender, hfindings, fun m hm => ?_⟩
  obtain ⟨q, hq, htree⟩ := parse_of_derives (derives_of_printed hdecls hdefs hwords (by omega : _ ≤ m.toNat))
  exact ⟨q, hq, same_of_prints hdefs htree, (render_eq_of_tree htree).trans hrender⟩

theorem exists_of_no_finding {result : Except Fault (Program × List Finding)}
    (h : result.toOption.map (·.2.isEmpty) = some true) : ∃ p, result = .ok (p, []) := by
  obtain ⟨⟨p, findings⟩, hread, hempty⟩ := exists_ok_of_view h
  exact ⟨p, isEmpty_iff.mp hempty ▸ hread⟩

/-- A block, a negative number that is subtracted, and a prime. -/
theorem parse_scan_render_block :
    ∃ p, Program.read "y = a - -1.5 with \x7b a = _'; \x7d;" 100 = .ok (p, []) ∧
      ∃ text least, p.render = .ok text ∧ (scan text).2 = [] ∧ ∀ m : Int, least ≤ m →
        ∃ q, Program.parse (scan text).1 m = .ok (q, []) ∧ p.same q = true ∧ q.render = .ok text := by
  obtain ⟨p, hp⟩ : ∃ p, Program.read "y = a - -1.5 with \x7b a = _'; \x7d;" 100 = .ok (p, []) :=
    exists_of_no_finding (by decide +kernel)
  exact ⟨p, hp, parse_scan_render _ 100 p hp⟩

end Program

end Patchbay
