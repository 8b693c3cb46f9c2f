import Patchbay.Proofs.Parser.Recovery

/-!
# A semicolon that was left out

A statement without its semicolon costs one finding and nothing else, if the next statement starts on a later line. Up
to its end a statement is read alike, whether its semicolon comes then or the next statement; there the reader takes the
semicolon or reports it, and goes on from the same number.
-/

open List

namespace Patchbay

/-- The definition when its semicolon is missing. -/
def Definition.unended (stop : Position) (e : Definition) : Definition :=
  { e with mark := { e.mark with invalid := true }, stop := stop }

theorem Definition.shift_unended (k : Nat) (stop : Position) (e : Definition) :
    (e.unended stop).shift k = (e.shift k).unended stop := by
  obtain ⟨mark, name, params, body, stop'⟩ := e
  cases body with
  | none | some body => rw [Definition.unended, Definition.shift, Definition.shift]; rfl

/-- The program when the semicolon of its first definition, if there is one, is missing. -/
def Program.unended (stop : Position) (p : Program) : Program :=
  { p with definitions := p.definitions.modify 0 (Definition.unended stop) }

/-- Behind other definitions, it is not the first one any more. -/
theorem Program.definitions_unended (p x r : Program) (k : Nat) (stop : Position) :
    (p.append (((x.unended stop).append r).shift k)).definitions =
      if x.definitions.isEmpty then (p.append ((x.append r).shift k)).definitions
      else (p.append ((x.append r).shift k)).definitions.modify p.definitions.length (Definition.unended stop) := by
  cases hx : x.definitions with
  | nil => simp [append, shift, unended, hx]
  | cons e es =>
    simp [append, shift, unended, hx, Definition.shiftAll_eq_map, Definition.shift_unended, modify_eq_take_drop]

end Patchbay

namespace Patchbay.Parser

open Patchbay.Grammar Surroundings State

variable {d : Int} {ts us : List Token} {semicolon last : Token}

/-! ## The end of a statement -/

/-- The tokens start a statement on a later line, if there are any. -/
structure NextLine (last : Token) (us : List Token) : Prop where
  line : ∀ next ∈ us.head?, last.stop.line < next.start.line
  kind : ∀ next ∈ us.head?, next.kind = .identifier ∨ next.kind = .keyword
  halting : ∀ next ∈ us.head?, Halting next

variable {k n : Nat} {q : Tree} {s : State} {name equals keyword : Token} {b : Phrase} {what : String} {x : Program}
  {es vs rest : List Token} {params : List String}

theorem endStatement_of_nextLine (h : NextLine last us) (what : String) (hrest : s.rest = us)
    (hlast : s.last = some last) :
    endStatement what s = (false, s.report last.stop (.missingSemicolon what us.head?)) := by
  cases us with
  | nil => simp [endStatement, hrest, place, hlast]
  | cons next us =>
    have hline := h.line next rfl
    have hkind := h.kind next rfl
    have hmark (text : String) : next.isMark text = false :=
      isMark_eq_false (by rcases hkind with hkind | hkind <;> simp [hkind])
    have hstarts : s.startsStatement next := by
      rcases hkind with hkind | hkind <;> simp [startsStatement, hlast, hline, hkind]
    simp [endStatement, hrest, hmark, hlast, hstarts]

/-! ## Up to the end -/

/-- The state at the end of a statement, or right after it. -/
def stateAt (rest : List Token) (last : Token) (k : Nat) (findings : List Finding) : State :=
  ⟨rest, last, 0, k, findings, false, false⟩

/-- Whatever comes after these tokens, a round reads them as a statement up to its end, and `finish` makes of the end
what the round gives. -/
structure Unended (d : Int) (ts : List Token) (last : Token) (k : Nat) (what : String)
    (finish : Bool × State → Program × State) : Prop where
  ends : ts.getLast? = some last
  round : ∀ tail token, (∀ t ∈ tail.head?, Halting t) → token ∈ ts.head? →
    round d token .empty (.start (ts ++ tail)) = finish (endStatement what (stateAt tail last k []))

theorem eq_of_moves {t : State} (h : (start ts).Moves t rest) : t = ⟨rest, t.last, 0, t.lastId, [], false, false⟩ := by
  obtain ⟨hrest, hdepth, hfindings, hoversized, hstarved⟩ := h
  obtain ⟨⟩ := t
  simp_all [start]

theorem unended_of_importing {opening path closing : Token} (hkeyword : keyword.isKeyword "import")
    (hopening : opening.isMark "(") (hpath : path.kind = .string) (hclosing : closing.isMark ")") :
    Unended d [keyword, opening, path, closing] closing 0 "import statement"
      fun e => (⟨[⟨e.2.newMark keyword, unquote path.text⟩], [], []⟩, e.2.count) := by
  refine ⟨rfl, fun tail token _ htoken => ?_⟩
  obtain rfl : keyword = token := Option.some.inj htoken
  unfold Parser.round
  rw [if_pos hkeyword, importStatement_of_tokens rfl hopening hpath hclosing rfl]
  rfl

theorem unended_of_declaring {value : Token} {names : List Token} (hkeyword : keyword.isKeyword "declare")
    (hne : names ≠ []) (hnames : ∀ name ∈ names, name.kind = .identifier) (hvalue : value.kind = .string) :
    Unended d (keyword :: (names ++ [value])) value 0 "declaration"
      fun e =>
        (⟨[], [⟨e.2.newMark keyword, " ".intercalate (names.map (·.text)), unquote value.text⟩], []⟩, e.2.count) := by
  refine ⟨by simp [getLast?_cons], fun tail token _ htoken => ?_⟩
  obtain rfl : keyword = token := Option.some.inj htoken
  have hrest : (start (keyword :: (names ++ [value]) ++ tail)).rest = keyword :: (names ++ value :: tail) := by
    simp [start]
  obtain ⟨t, hmoves, hid, hlast, hread⟩ := declareStatement_of_tokens hrest hne hnames hvalue
  have ht : t = stateAt tail value 0 [] := by
    rw [eq_of_moves hmoves, hid, hlast]
    rfl
  unfold Parser.round
  rw [if_neg (by simp [isKeyword_of_isKeyword hkeyword]), if_pos hkeyword, hread _ rfl, ht]
  rfl

/-- A definition that ends with the text is read up to its end. -/
theorem exists_body (hts : ts = name :: (vs ++ equals :: es)) (hparams : ParameterList vs params)
    (hequals : equals.isOperator "=") (h : Expression d.toNat true es b) :
    (header (.start ts)).2.1 ∧ (header (.start ts)).2.2.peek = some equals ∧
      ∃ body t, Gives d (.expression true) (header (.start ts)).2.2.advance body t ∧ body.invalid = false ∧
        (start ts).Moves t [] ∧ t.last = ts.getLast? := by
  have hrest : (start ts).rest = name :: (vs ++ equals :: es) := hts
  have hmoves : (start ts).Moves (start ts).advance.count (vs ++ equals :: es) :=
    (hrest ▸ State.Moves.refl _).advance.count
  obtain ⟨u, hread, hmoves'⟩ := parameters_of_derives hparams hmoves.rest (by simp [kind_of_isOperator hequals])
  have hheader : header (.start ts) = (params, true, u) := hread
  have hmoves'' := hmoves.trans hmoves'.advance
  obtain ⟨m, hm, hcomplete⟩ := completeExpression (d := d) h
  have hready : Ready d (m + 1) es [] u.advance :=
    ⟨by rw [hmoves''.rest, append_nil], by rw [hmoves''.levels d, levels_start, hm]⟩
  have hends : EndsComposition true [] :=
    ⟨⟨by simp [Separates], by simp [PrimesStop], by simp [ArithmeticStops]⟩, by simp [CompositionStops]⟩
  obtain ⟨read, hbody, hyields⟩ := hcomplete.yields hready hends (by simp [BlocksStop])
  have hend := hmoves''.trans hyields.toMoves
  have hpeek : u.peek = some equals := by rw [peek, hmoves'.rest]; rfl
  rw [hheader]
  refine ⟨rfl, hpeek, read.1, read.2, hbody, hyields.valid, hend, ?_⟩
  -- All tokens were taken, so the last one taken is the last of them.
  have hextends : (start ts).Extends read.2 := extends_body (by rw [hheader]; exact hbody)
  obtain ⟨taken, htaken, hlast⟩ := hextends.took
  rw [hend.rest, append_nil] at htaken
  rw [hlast, ← htaken]
  exact Option.or_none

theorem unended_of_defining (hts : ts = name :: (vs ++ equals :: es)) (hname : name.kind = .identifier)
    (hparams : ParameterList vs params) (hequals : equals.isOperator "=") (h : Expression d.toNat true es b) :
    ∃ last k body, Unended d ts last k ("definition of '" ++ name.text ++ "'") fun e =>
      (⟨[], [], [definitionOf name (.start ts) (!e.1) (some body) (e.2.place none)]⟩, e.2) := by
  obtain ⟨hreadable, hpeek, body, t, ⟨_, hbody⟩, hvalid, hmoves, hlast⟩ := exists_body hts hparams hequals h
  have hne : ts ≠ [] := hts ▸ cons_ne_nil _ _
  rw [getLast?_eq_some_getLast hne] at hlast
  refine ⟨ts.getLast hne, t.lastId, body, getLast?_eq_some_getLast hne, fun tail token htail htoken => ?_⟩
  obtain rfl : name = token := by simpa [hts] using htoken
  -- In front of other tokens it is read alike.
  let c : Surroundings := ⟨0, tail, [], false, false⟩
  have hlasts : c.Lasts (header (.start ts)).2.2 := .inr fun hnil => by simp [peek, hnil] at hpeek
  have hread := definition_until_end hreadable (by simp [hpeek, hequals]) hlasts
    (hbody.carried (.inr ⟨hmoves.findings, htail⟩)) name hvalid
  have hstart : c.embed (.start ts) = .start (ts ++ tail) := rfl
  have hstop : c.embed t = stateAt tail (ts.getLast hne) t.lastId [] := by
    rw [eq_of_moves hmoves, hlast]
    rfl
  rw [hstart, hstop, Definition.shift_zero] at hread
  have hkeyword (text : String) : ¬name.isKeyword text := by simp [isKeyword_eq_false, hname]
  unfold Parser.round
  rw [if_neg (hkeyword _), if_neg (hkeyword _), if_pos hname, hread.definition_eq]
  rfl

/-! ## With and without the semicolon -/

/-- With its semicolon, a statement is read as the program `x`. Without it, reading goes on with the next line from the
same number, and only the semicolon is reported. -/
structure Omits (d : Int) (ts : List Token) (semicolon last : Token) (what : String) (k : Nat) (x : Program) :
    Prop where
  ends : ts.getLast? = some last
  taken : ∀ us token, token ∈ ts.head? →
    round d token .empty (.start (ts ++ semicolon :: us)) = (x, stateAt us semicolon k [])
  missed : ∀ us token, NextLine last us → token ∈ ts.head? → round d token .empty (.start (ts ++ us))
    = (x.unended last.stop, stateAt us last k [⟨last.stop, .missingSemicolon what us.head?⟩])

theorem Unended.omits {k' : Nat} {finish : Bool × State → Program × State} (h : Unended d ts last k what finish)
    (hsemicolon : semicolon.isMark ";")
    (htaken : ∀ us, finish (true, stateAt us semicolon k []) = (x, stateAt us semicolon k' []))
    (hmissed : ∀ us f, finish (false, stateAt us last k [f]) = (x.unended last.stop, stateAt us last k' [f])) :
    Omits d ts semicolon last what k' x := by
  refine ⟨h.ends, fun us token htoken => ?_, fun us token hnext htoken => ?_⟩
  · have hhalting : Halting semicolon := by
      have hkind := kind_of_isMark hsemicolon
      have htext := text_of_isMark hsemicolon
      constructor <;> simp [Token.isMark, Token.isKeyword, hkind, htext]
    rw [h.round _ _ (by simpa using hhalting) htoken, endStatement_of_semicolon rfl hsemicolon]
    exact htaken us
  · rw [h.round _ _ hnext.halting htoken, endStatement_of_nextLine hnext what rfl rfl]
    exact hmissed us _

/-- Tokens that derive nothing are none. -/
theorem eq_nil_of_empty (h : Statements n us q)
    (hnone : q.imports.length + q.declarations.length + q.definitions.length = 0) : us = [] := by
  cases h with
  | nil => rfl
  | importing | declaring | defining => simp at hnone

theorem concat_inj {t : Token} (h : ts ++ [semicolon] = vs ++ [t]) : ts = vs ∧ semicolon = t := by
  obtain ⟨hts, hlast⟩ := append_inj' h rfl
  exact ⟨hts, singleton_inj.mp hlast⟩

/-- A single statement can lose its semicolon. -/
theorem exists_omits (h : Statements d.toNat (ts ++ [semicolon]) q)
    (hone : q.imports.length + q.declarations.length + q.definitions.length = 1) :
    ∃ last what k x, Omits d ts semicolon last what k x := by
  generalize hvs : ts ++ [semicolon] = vs at h
  cases h with
  | nil => simp at hvs
  | @importing keyword opening path closing semicolon' vs p hkeyword hopening hpath hclosing hsemicolon hmore =>
    obtain rfl := eq_nil_of_empty hmore (by simp at hone; omega)
    have hvs : ts ++ [semicolon] = [keyword, opening, path, closing] ++ [semicolon'] := hvs
    obtain ⟨rfl, rfl⟩ := concat_inj hvs
    exact ⟨_, _, 1, ⟨[⟨⟨1, keyword.start, false⟩, unquote path.text⟩], [], []⟩,
      (unended_of_importing hkeyword hopening hpath hclosing).omits hsemicolon (fun _ => rfl) fun _ _ => rfl⟩
  | @declaring keyword value semicolon' names vs p hkeyword hne hnames hvalue hsemicolon hmore =>
    obtain rfl := eq_nil_of_empty hmore (by simp at hone; omega)
    have hvs : ts ++ [semicolon] = (keyword :: (names ++ [value])) ++ [semicolon'] := by simpa using hvs
    obtain ⟨rfl, rfl⟩ := concat_inj hvs
    exact ⟨_, _, 1, ⟨[], [⟨⟨1, keyword.start, false⟩, " ".intercalate (names.map (·.text)), unquote value.text⟩], []⟩,
      (unended_of_declaring hkeyword hne hnames hvalue).omits hsemicolon (fun _ => rfl) fun _ _ => rfl⟩
  | @defining vs ws e p hdefinition hmore =>
    obtain rfl := eq_nil_of_empty hmore (by simp at hone; omega)
    cases hdefinition with
    | @intro _ name equals semicolon' us es params b hname hparams hequals hbody hsemicolon =>
      have hvs : ts ++ [semicolon] = (name :: (us ++ equals :: es)) ++ [semicolon'] := by simpa using hvs
      obtain ⟨hts, rfl⟩ := concat_inj hvs
      obtain ⟨last, k, body, hunended⟩ := unended_of_defining hts hname hparams hequals hbody
      exact ⟨_, _, k, ⟨[], [], [definitionOf name (.start ts) false (some body) semicolon.stop]⟩,
        hunended.omits hsemicolon (fun _ => rfl) fun _ _ => rfl⟩

/-- The first round, and what is left after it. -/
theorem run_of_round {token : Token} (hround : round d token .empty (.start (token :: rest)) = (x, s))
    (hdepth : s.depth = 0) :
    (run d (token :: rest)).1 = x.append ((run d s.rest).1.shift s.lastId) ∧
      (run d (token :: rest)).2.findings = s.findings ++ (run d s.rest).2.findings ∧
      (run d (token :: rest)).2.oversized = (s.oversized || (run d s.rest).2.oversized) := by
  have hless := length_round (d := d) (p := .empty) (s := .start (token :: rest)) rfl
  rw [hround] at hless
  have hrun : run d (token :: rest) = statements d rest.length x s := by
    rw [run, length_cons, statements_of_cons d _ .empty rfl, hround]
  rw [hrun]
  exact statements_of_start d x hdepth (Nat.le_of_lt_succ hless)

theorem Omits.run_taken (h : Omits d ts semicolon last what k x) (us : List Token) :
    (run d (ts ++ semicolon :: us)).1 = x.append ((run d us).1.shift k) ∧
      (run d (ts ++ semicolon :: us)).2.findings = (run d us).2.findings ∧
      (run d (ts ++ semicolon :: us)).2.oversized = (run d us).2.oversized := by
  obtain ⟨token, rest, rfl⟩ := exists_cons_of_ne_nil fun hnil : ts = [] => by simpa [hnil] using h.ends
  exact run_of_round (h.taken us token rfl) rfl

theorem Omits.run_missed (h : Omits d ts semicolon last what k x) (hnext : NextLine last us) :
    (run d (ts ++ us)).1 = (x.unended last.stop).append ((run d us).1.shift k) ∧
      (run d (ts ++ us)).2.findings = ⟨last.stop, .missingSemicolon what us.head?⟩ :: (run d us).2.findings ∧
      (run d (ts ++ us)).2.oversized = (run d us).2.oversized := by
  obtain ⟨token, rest, rfl⟩ := exists_cons_of_ne_nil fun hnil : ts = [] => by simpa [hnil] using h.ends
  exact run_of_round (h.missed us token hnext rfl) rfl

theorem nextLine_of_statements (h : Statements n us q) (hline : ∀ next ∈ us.head?, last.stop.line < next.start.line) :
    NextLine last us := by
  have hhead : ∀ next ∈ us.head?,
      next.kind = .identifier ∨ next.isKeyword "import" ∨ next.isKeyword "declare" := by
    cases h with
    | nil => simp
    | importing hkeyword => simp [hkeyword]
    | declaring hkeyword => simp [hkeyword]
    | defining hdefinition =>
      cases hdefinition with
      | intro hname => simp [hname]
  refine ⟨hline, fun next hnext => ?_, fun next hnext => ?_⟩
  · rcases hhead next hnext with h | h | h
    · exact .inl h
    · exact .inr (kind_of_isKeyword h)
    · exact .inr (kind_of_isKeyword h)
  · rcases hhead next hnext with h | h | h
    · constructor <;> simp [Token.isMark, Token.isKeyword, h]
    · constructor <;> simp [Token.isMark, isKeyword_of_isKeyword h, kind_of_isKeyword h]
    · constructor <;> simp [Token.isMark, isKeyword_of_isKeyword h, kind_of_isKeyword h]

end Patchbay.Parser

namespace Patchbay.Program

open Patchbay.Parser

/-- Let tokens be read without a finding, with one statement among others, and leave out the last token of that one, its
semicolon. If what follows starts on a later line, then all statements are read as before, with the same numbers, but if
the one is a definition, it is marked invalid and ends with its last token. Only the semicolon is reported, right behind
that token. -/
theorem parse_without_semicolon (as ts us : List Token) (semicolon : Token) (d : Int)
    {first statement whole : Program} (hfirst : Program.parse as d = .ok (first, []))
    (hstatement : Program.parse (ts ++ [semicolon]) d = .ok (statement, []))
    (hone : statement.imports.length + statement.declarations.length + statement.definitions.length = 1)
    (hwhole : Program.parse (as ++ ts ++ [semicolon] ++ us) d = .ok (whole, []))
    (hline : ∀ last ∈ ts.getLast?, ∀ next ∈ us.head?, last.stop.line < next.start.line) :
    ∃ last read what, ts.getLast? = some last ∧
      Program.parse (as ++ ts ++ us) d = .ok (read, [⟨last.stop, .missingSemicolon what us.head?⟩]) ∧
      read.imports = whole.imports ∧ read.declarations = whole.declarations ∧
      read.definitions = if statement.definitions.isEmpty then whole.definitions
        else whole.definitions.modify first.definitions.length (Definition.unended last.stop) := by
  obtain ⟨last, what, k, x, homits⟩ := exists_omits (derives_of_parse hstatement) (by
    simpa [tree, Definition.phrases_eq_map] using hone)
  -- The statement alone, and all statements.
  obtain ⟨-, rfl, -⟩ := run_of_parse hstatement
  obtain ⟨hfirst', rfl, hquiet⟩ := run_of_parse hfirst
  have happend (vs : List Token) := run_append (passable_of_quiet ⟨0, vs, [], false, false⟩ d)
    ⟨as.length, Nat.le_refl _, hquiet, hfirst'⟩
  have hassoc : as ++ ts ++ [semicolon] ++ us = as ++ (ts ++ semicolon :: us) := by simp
  rw [hassoc] at hwhole
  obtain ⟨hover, rfl, hfindings⟩ := run_of_parse hwhole
  obtain ⟨hx, hxfindings, hxover⟩ := homits.run_taken us
  obtain ⟨hall, hallfindings, hallover⟩ := happend (ts ++ semicolon :: us)
  rw [hallfindings, hquiet, nil_append, hxfindings] at hfindings
  rw [hallover, hfirst', Bool.false_or, hxover] at hover
  have hus : Program.parse us d = .ok ((run d us).1, []) := by simp [Program.parse, hover, hfindings]
  have hnext := nextLine_of_statements (derives_of_parse hus) (hline last homits.ends)
  -- The same without the semicolon.
  obtain ⟨hy, hyfindings, hyover⟩ := homits.run_missed hnext
  obtain ⟨hread, hreadfindings, hreadover⟩ := happend (ts ++ us)
  have hx' : (run d (ts ++ [semicolon])).1 = x := by
    rw [(homits.run_taken []).1]
    exact append_empty x
  refine ⟨last, (run d (as ++ (ts ++ us))).1, what, homits.ends, ?_, ?_, ?_, ?_⟩
  · rw [List.append_assoc]
    unfold Program.parse
    dsimp only
    rw [hreadover, hyover, hover, hfirst', hreadfindings, hyfindings, hquiet, hfindings]
    rfl
  · rw [hread, hall, hx, hy]
    rfl
  · rw [hread, hall, hx, hy]
    rfl
  · rw [hread, hall, hx, hy, hx']
    exact definitions_unended _ x _ _ last.stop

/-- The tokens of `import("a.lib");`. -/
def importTokens : List Token :=
  [⟨.keyword, "import", ⟨1, 1⟩, ⟨1, 7⟩⟩, ⟨.punctuation, "(", ⟨1, 7⟩, ⟨1, 8⟩⟩,
    ⟨.string, "\"a.lib\"", ⟨1, 8⟩, ⟨1, 15⟩⟩, ⟨.punctuation, ")", ⟨1, 15⟩, ⟨1, 16⟩⟩,
    ⟨.punctuation, ";", ⟨1, 16⟩, ⟨1, 17⟩⟩]

/-- The tokens of `x = a`, on the second line. -/
def unendedTokens : List Token :=
  [⟨.identifier, "x", ⟨2, 1⟩, ⟨2, 2⟩⟩, ⟨.operator, "=", ⟨2, 3⟩, ⟨2, 4⟩⟩, ⟨.identifier, "a", ⟨2, 5⟩, ⟨2, 6⟩⟩]

/-- The tokens of `y = x;`, on the third line. -/
def laterTokens : List Token :=
  [⟨.identifier, "y", ⟨3, 1⟩, ⟨3, 2⟩⟩, ⟨.operator, "=", ⟨3, 3⟩, ⟨3, 4⟩⟩, ⟨.identifier, "x", ⟨3, 5⟩, ⟨3, 6⟩⟩,
    ⟨.punctuation, ";", ⟨3, 6⟩, ⟨3, 7⟩⟩]

theorem parse_without_semicolon_second_line :
    ∃ first statement whole, Program.parse importTokens 1 = .ok (first, []) ∧
      Program.parse (unendedTokens ++ [⟨.punctuation, ";", ⟨2, 6⟩, ⟨2, 7⟩⟩]) 1 = .ok (statement, []) ∧
      Program.parse (importTokens ++ unendedTokens ++ [⟨.punctuation, ";", ⟨2, 6⟩, ⟨2, 7⟩⟩] ++ laterTokens) 1
        = .ok (whole, []) ∧
      ∃ last read what, unendedTokens.getLast? = some last ∧
        Program.parse (importTokens ++ unendedTokens ++ laterTokens) 1
          = .ok (read, [⟨last.stop, .missingSemicolon what laterTokens.head?⟩]) ∧
        read.imports = whole.imports ∧ read.declarations = whole.declarations ∧
        read.definitions = if statement.definitions.isEmpty then whole.definitions
          else whole.definitions.modify first.definitions.length (Definition.unended last.stop) := by
  have hfirst : Program.parse importTokens 1 = .ok (⟨[⟨⟨1, ⟨1, 1⟩, false⟩, "a.lib"⟩], [], []⟩, []) := by
    with_unfolding_all rfl
  have hstatement : Program.parse (unendedTokens ++ [⟨.punctuation, ";", ⟨2, 6⟩, ⟨2, 7⟩⟩]) 1
      = .ok (⟨[], [], [⟨⟨1, ⟨2, 1⟩, false⟩, "x", [], some (.ref ⟨2, ⟨2, 5⟩, false⟩ "a"), ⟨2, 7⟩⟩]⟩, []) := by
    with_unfolding_all rfl
  have hwhole : Program.parse (importTokens ++ unendedTokens ++ [⟨.punctuation, ";", ⟨2, 6⟩, ⟨2, 7⟩⟩] ++ laterTokens) 1
      = .ok (⟨[⟨⟨1, ⟨1, 1⟩, false⟩, "a.lib"⟩], [],
        [⟨⟨2, ⟨2, 1⟩, false⟩, "x", [], some (.ref ⟨3, ⟨2, 5⟩, false⟩ "a"), ⟨2, 7⟩⟩,
          ⟨⟨4, ⟨3, 1⟩, false⟩, "y", [], some (.ref ⟨5, ⟨3, 5⟩, false⟩ "x"), ⟨3, 7⟩⟩]⟩, []) := by
    with_unfolding_all rfl
  exact ⟨_, _, _, hfirst, hstatement, hwhole,
    parse_without_semicolon importTokens unendedTokens laterTokens _ 1 hfirst hstatement rfl hwhole (by decide)⟩

end Patchbay.Program
