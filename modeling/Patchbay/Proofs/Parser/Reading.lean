import Patchbay.Proofs.Parser.Progress

/-!
# How boxes are read

The functions that read boxes and definitions call each other with fuel. `Reading` says what they give without it: one
rule for each way in which a job ends or is handed on, so that a property of reading is proved by one induction with one
case for each rule. Every job can be done in exactly one way (`gives_run`, `Reading.unique`), and with the fuel that it
needs its function gives the same (`Reading.run_eq`). A reading also tells between which states the braces of the blocks
stand that belong to what is read.
-/

open List

namespace Patchbay.Parser

open State

/-! ## What may come next -/

/-- No composition operator of at least this tier comes next. -/
def CompositionStops (par : Bool) (tier : Nat) (rest : List Token) : Prop :=
  ∀ t ∈ rest.head?, ∀ op, compositionOf? par t = some op → op.precedence < tier

/-- No arithmetic operator of at least this tier comes next. -/
def ArithmeticStops (tier : Nat) (rest : List Token) : Prop :=
  ∀ t ∈ rest.head?, ∀ p, arithmeticOf? t = some p → p < tier

/-- The next token starts no block. -/
def BlocksStop (rest : List Token) : Prop := ∀ t ∈ rest.head?, t.isKeyword "with" = false

/-- The token that comes next is a box by itself. -/
def LeafAt (token : Token) (s : State) : Prop :=
  (token.kind = .identifier ∧ s.advance.atMark "(" = false) ∨ token.kind = .number ∨ token.kind = .string
    ∨ (isOperatorBox token = true ∧ startsNegative s.rest = false
      ∧ (token.text = "!" ∨ s.advance.atMark "(" = false))

/-- The token that comes next is the head of a call. -/
def CallAt (token : Token) (s : State) : Prop :=
  (token.kind = .identifier ∨ isOperatorBox token = true ∧ token.text ≠ "!") ∧ s.advance.atMark "(" = true

/-- The token starts no box. -/
structure NoBox (token : Token) : Prop where
  identifier : token.kind ≠ .identifier
  number : token.kind ≠ .number
  string : token.kind ≠ .string
  opening : token.isMark "(" = false
  operator : isOperatorBox token = false

/-! ## Jobs -/

/-- What is asked of the functions that read boxes and definitions. -/
inductive Job where
  | expression (par : Bool)
  | blocks (box : Box)
  | composition (least : Nat) (par : Bool)
  | compositionRest (least : Nat) (par : Bool) (left : Box)
  | arithmetic (least : Nat)
  | arithmeticRest (least : Nat) (left : Box)
  | primary
  | arguments (name : String) (opening : Position) (args : List Box)
  | localDefinitions (locals : List Definition)
  | definition (name : Token)

namespace Job

/-- What a job gives. -/
@[reducible] def Result : Job → Type
  | .arguments _ _ _ => List Box × Bool
  | .localDefinitions _ => List Definition
  | .definition _ => Definition
  | _ => Box

/-- A job done by its function. -/
def run (d : Int) (fuel : Nat) : (job : Job) → State → job.Result × State
  | .expression par, s => Parser.expression d fuel par s
  | .blocks box, s => Parser.blocks d fuel box s
  | .composition least par, s => Parser.composition d fuel least par s
  | .compositionRest least par left, s => Parser.compositionRest d fuel least par left s
  | .arithmetic least, s => Parser.arithmetic d fuel least s
  | .arithmeticRest least left, s => Parser.arithmeticRest d fuel least left s
  | .primary, s => Parser.primary d fuel s
  | .arguments name opening args, s =>
    (((Parser.arguments d fuel name opening args s).1, (Parser.arguments d fuel name opening args s).2.1),
      (Parser.arguments d fuel name opening args s).2.2)
  | .localDefinitions locals, s => Parser.localDefinitions d fuel locals s
  | .definition name, s => Parser.definition d fuel name s

/-- Fuel that covers a job. -/
def need : Job → State → Nat
  | .expression _, s => 10 * s.rest.length + 5
  | .blocks _, s => 10 * s.rest.length + 2
  | .composition _ _, s => 10 * s.rest.length + 4
  | .compositionRest _ _ _, s => 10 * s.rest.length + 1
  | .arithmetic _, s => 10 * s.rest.length + 3
  | .arithmeticRest _ _, s => 10 * s.rest.length + 1
  | .primary, s => 10 * s.rest.length + 2
  | .arguments _ _ _, s => 10 * s.rest.length + 6
  | .localDefinitions _, s => 10 * s.rest.length + 3
  | .definition _, s => 10 * s.advance.rest.length + 6

end Job

/-! ## Reading -/

/-- One more expression is open. -/
def State.enter (s : State) : State := { s with depth := s.depth + 1 }

/-- One expression less is open. -/
def State.leave (s : State) : State := { s with depth := s.depth - 1 }

/-- A finding at the next token, and an invalid box for what could not be read. -/
def State.fail (s : State) (i : Issue) (token : Option Token) : Box × State := (s.reportNext i).invalidBox token

/-- What is read of a definition before its equals sign. -/
def header (s : State) : List String × Bool × State := parameters s.advance.count

/-- The definition of a name that comes next. -/
def definitionOf (name : Token) (s : State) (invalid : Bool) (body : Option Box) (stop : Position) : Definition :=
  ⟨{ s.advance.newMark name with invalid := invalid }, name.text, (header s).1, body, stop⟩

/-- How the end of a definition is called. -/
def definitionEnd (name : Token) (s : State) : Bool × State :=
  endStatement ("definition of '" ++ name.text ++ "'") s

/-- The states right after an opening brace and right before its closing one. -/
abbrev Braces := List (State × State)

/-- What a job gives, from state to state, and the braces of the blocks that it reads. Blocks inside the definitions
between such braces do not count. -/
inductive Reading (d : Int) : (job : Job) → State → job.Result → State → Braces → Prop
  | nested {par s} (h : d < (s.enter.depth : Int)) :
    Reading d (.expression par) s (s.enter.fail (.nestedTooDeeply d) s.enter.peek).1
      (s.enter.fail (.nestedTooDeeply d) s.enter.peek).2.leave []
  | expression {par s box t r u b c} (h : (s.enter.depth : Int) ≤ d)
    (hbox : Reading d (.composition 1 par) s.enter box t b) (hblocks : Reading d (.blocks box) t r u c) :
    Reading d (.expression par) s r u.leave (b ++ c)
  | blocksDone {box s} (h : box.invalid = true ∨ BlocksStop s.rest) : Reading d (.blocks box) s box s []
  | blockMissing {box s keyword rest} (hvalid : box.invalid = false) (hrest : s.rest = keyword :: rest)
    (hkeyword : keyword.isKeyword "with" = true) (hopen : s.advance.atMark "\x7b" = false) :
    Reading d (.blocks box) s (s.advance.fail (.missingBrace s.advance.peek) s.advance.peek).1
      (s.advance.fail (.missingBrace s.advance.peek) s.advance.peek).2 []
  | blockUnclosed {box s} {keyword : Token} {rest locals t b} (hvalid : box.invalid = false)
    (hrest : s.rest = keyword :: rest) (hkeyword : keyword.isKeyword "with" = true)
    (hopen : s.advance.atMark "\x7b" = true)
    (hlocals : Reading d (.localDefinitions []) s.advance.advance.count locals t b) (hend : t.rest = []) :
    Reading d (.blocks box) s (.block { s.advance.advance.newMark keyword with invalid := true } box locals)
      (t.reportNext (.unclosedBrace (s.advance.place s.advance.peek))) [(s.advance.advance.count, t)]
  | block {box s} {keyword : Token} {rest locals t r u b c} (hvalid : box.invalid = false)
    (hrest : s.rest = keyword :: rest) (hkeyword : keyword.isKeyword "with" = true)
    (hopen : s.advance.atMark "\x7b" = true)
    (hlocals : Reading d (.localDefinitions []) s.advance.advance.count locals t b) (hend : t.rest ≠ [])
    (hmore : Reading d (.blocks (.block (s.advance.advance.newMark keyword) box locals)) t.advance r u c) :
    Reading d (.blocks box) s r u ((s.advance.advance.count, t) :: c)
  | composition {least par s left t r u b c} (hleft : Reading d (.arithmetic 0) s left t b)
    (hmore : Reading d (.compositionRest least par left) t r u c) :
    Reading d (.composition least par) s r u (b ++ c)
  | compositionDone {least par left s} (h : left.invalid = true ∨ CompositionStops par least s.rest) :
    Reading d (.compositionRest least par left) s left s []
  | compose {least par left s} {token : Token} {rest op right t r u b c} (hvalid : left.invalid = false)
    (hrest : s.rest = token :: rest) (hop : compositionOf? par token = some op) (hleast : least ≤ op.precedence)
    (hright : Reading d (.composition (op.precedence + 1) par) s.advance right t b)
    (hmore : Reading d (.compositionRest least par
      (.compose { t.newMark token with invalid := right.invalid } op left right)) t.count r u c) :
    Reading d (.compositionRest least par left) s r u (b ++ c)
  | arithmetic {least s box t r u b c} (hbox : Reading d .primary s box t b)
    (hmore : Reading d (.arithmeticRest least (primes box t).1) (primes box t).2 r u c) :
    Reading d (.arithmetic least) s r u (b ++ c)
  | arithmeticDone {least left s} (h : left.invalid = true ∨ ArithmeticStops least s.rest) :
    Reading d (.arithmeticRest least left) s left s []
  | operate {least left s token rest precedence right t r u b c} (hvalid : left.invalid = false)
    (hrest : s.rest = token :: rest) (hop : arithmeticOf? token = some precedence) (hleast : least ≤ precedence)
    (hright : Reading d (.arithmetic (precedence + 1)) s.advance right t b)
    (hmore : Reading d (.arithmeticRest least (arithmeticBox token left right t).1)
      (arithmeticBox token left right t).2 r u c) :
    Reading d (.arithmeticRest least left) s r u (b ++ c)
  | ended {s} (h : s.rest = []) :
    Reading d .primary s (s.fail .unexpectedEnd none).1 (s.fail .unexpectedEnd none).2 []
  | unexpected {s} {token : Token} {rest} (hrest : s.rest = token :: rest) (h : NoBox token) :
    Reading d .primary s (s.fail (.unexpectedToken token) token).1 (s.fail (.unexpectedToken token) token).2 []
  | leaf {s token rest} (hrest : s.rest = token :: rest) (h : LeafAt token s) :
    Reading d .primary s (leaf token s).1 (leaf token s).2 []
  | negative {s sign number rest} (hrest : s.rest = sign :: number :: rest) (hsign : sign.isOperator "-" = true)
    (hnumber : number.kind = .number) :
    Reading d .primary s (negativeNumber sign number s).1 (negativeNumber sign number s).2 []
  | parenthesisInvalid {s opening rest inner t b} (hrest : s.rest = opening :: rest) (hopen : opening.isMark "(" = true)
    (hinner : Reading d (.expression true) s.advance inner t b) (hinvalid : inner.invalid = true) :
    Reading d .primary s inner t b
  | parenthesisUnclosed {s opening rest inner t b} (hrest : s.rest = opening :: rest)
    (hopen : opening.isMark "(" = true)
    (hinner : Reading d (.expression true) s.advance inner t b) (hvalid : inner.invalid = false)
    (hclose : t.atMark ")" = false) :
    Reading d .primary s (t.fail (.unclosedParenthesis opening.start t.peek) t.peek).1
      (t.fail (.unclosedParenthesis opening.start t.peek) t.peek).2 b
  | parenthesis {s opening rest inner t b} (hrest : s.rest = opening :: rest) (hopen : opening.isMark "(" = true)
    (hinner : Reading d (.expression true) s.advance inner t b) (hvalid : inner.invalid = false)
    (hclose : t.atMark ")" = true) : Reading d .primary s inner t.advance b
  | callEmpty {s} {name : Token} {rest} (hrest : s.rest = name :: rest) (h : CallAt name s)
    (hclose : s.advance.advance.count.atMark ")" = true) :
    Reading d .primary s (.call { s.advance.advance.newMark name with invalid := true } name.text [])
      (s.advance.advance.count.reportNext (.emptyArguments name.text)).advance []
  | call {s} {name : Token} {rest args valid t b} (hrest : s.rest = name :: rest) (h : CallAt name s)
    (hclose : s.advance.advance.count.atMark ")" = false)
    (hargs : Reading d (.arguments name.text (s.advance.place s.advance.peek) []) s.advance.advance.count
      (args, valid) t b) :
    Reading d .primary s (.call { s.advance.advance.newMark name with invalid := !valid } name.text args) t b
  | argumentInvalid {name opening args s argument t b} (hargument : Reading d (.expression false) s argument t b)
    (hinvalid : argument.invalid = true) :
    Reading d (.arguments name opening args) s (args ++ [argument], false) t b
  | argumentsMalformed {name opening args s argument t b} (hargument : Reading d (.expression false) s argument t b)
    (hvalid : argument.invalid = false)
    (h : ∀ token ∈ t.rest.head?, token.isOperator "," = false ∧ token.isMark ")" = false) :
    Reading d (.arguments name opening args) s (args ++ [argument], false)
      (t.reportNext (.malformedArguments name opening t.peek)) b
  | argumentsMore {name opening args s argument t comma rest r u b c}
    (hargument : Reading d (.expression false) s argument t b) (hvalid : argument.invalid = false)
    (hrest : t.rest = comma :: rest) (hcomma : comma.isOperator "," = true)
    (hmore : Reading d (.arguments name opening (args ++ [argument])) t.advance r u c) :
    Reading d (.arguments name opening args) s r u (b ++ c)
  | argumentsEnd {name opening args s argument t closing rest b}
    (hargument : Reading d (.expression false) s argument t b) (hvalid : argument.invalid = false)
    (hrest : t.rest = closing :: rest) (hclosing : closing.isMark ")" = true) :
    Reading d (.arguments name opening args) s (args ++ [argument], true) t.advance b
  | localsDone {locals s} (h : ∀ token ∈ s.rest.head?, token.isMark "\x7d" = true) :
    Reading d (.localDefinitions locals) s locals s []
  | localsSkip {locals s token rest r u b} (hrest : s.rest = token :: rest) (hbrace : token.isMark "\x7d" = false)
    (hname : token.kind ≠ .identifier)
    (hmore : Reading d (.localDefinitions locals) (s.report token.start (.unexpectedLocal token)).recover r u b) :
    Reading d (.localDefinitions locals) s r u b
  | localsMore {locals s name rest e t r u b c} (hrest : s.rest = name :: rest) (hname : name.kind = .identifier)
    (hdefinition : Reading d (.definition name) s e t b)
    (hmore : Reading d (.localDefinitions (locals ++ [e])) t r u c) :
    Reading d (.localDefinitions locals) s r u (b ++ c)
  | headerUnreadable {name s} (hreadable : (header s).2.1 = false) :
    Reading d (.definition name) s (definitionOf name s true none ⟨0, 0⟩) (header s).2.2.recover []
  | headerUnended {name s} (hreadable : (header s).2.1 = true)
    (hequals : (header s).2.2.peek.any (·.isOperator "=") = false) :
    Reading d (.definition name) s (definitionOf name s true none ⟨0, 0⟩)
      ((header s).2.2.reportNext (.missingEquals name.text (header s).2.2.peek)).recover []
  | bodyInvalid {name s body t b} (hreadable : (header s).2.1 = true)
    (hequals : (header s).2.2.peek.any (·.isOperator "=") = true)
    (hbody : Reading d (.expression true) (header s).2.2.advance body t b) (hinvalid : body.invalid = true) :
    Reading d (.definition name) s (definitionOf name s true (some body) (t.recover.place none)) t.recover b
  | definition {name s body t b} (hreadable : (header s).2.1 = true)
    (hequals : (header s).2.2.peek.any (·.isOperator "=") = true)
    (hbody : Reading d (.expression true) (header s).2.2.advance body t b) (hvalid : body.invalid = false) :
    Reading d (.definition name) s
      (definitionOf name s (!(definitionEnd name t).1) (some body) ((definitionEnd name t).2.place none))
      (definitionEnd name t).2 b

/-- What a job gives, whatever braces it meets. -/
def Gives (d : Int) (job : Job) (s : State) (r : job.Result) (t : State) : Prop := ∃ b, Reading d job s r t b

/-! ## Reading moves forward -/

/-- A definition takes at least its name. -/
def Job.entry : Job → State → State
  | .definition _, s => s.advance
  | _, s => s

theorem State.Extends.leave {s t : State} (h : s.enter.Extends t) : s.Extends t.leave :=
  ⟨h.took, by simp [State.leave, h.depth, State.enter], h.counted, h.findings, h.grammatical, h.oversized,
    h.convertible, h.starved⟩

/-- Two tokens open a block or the arguments of a call. -/
theorem extends_opened (s : State) : s.Extends s.advance.advance.count :=
  (s.extends_advance.trans (extends_advance _)).trans (extends_count _)

theorem extends_header (s : State) : s.advance.Extends (header s).2.2 :=
  (extends_count _).trans (extends_parameters _)

variable {d : Int} {job : Job} {s t : State} {r : job.Result} {b : Braces}

theorem Reading.entry_extends (h : Reading d job s r t b) : (job.entry s).Extends t := by
  induction h with
  | nested => exact .leave (extends_invalidBox _ _ _ rfl)
  | expression _ _ _ ih ih' => exact .leave (ih.trans ih')
  | blocksDone | compositionDone | arithmeticDone | localsDone => exact .refl _
  | blockMissing => exact (extends_advance _).trans (extends_invalidBox _ _ _ rfl)
  | blockUnclosed _ _ _ _ _ _ ih =>
    exact ((extends_opened _).trans ih).trans (extends_reportNext _ _ rfl)
  | block _ _ _ _ _ _ _ ih ih' =>
    exact (((extends_opened _).trans ih).trans (extends_advance _)).trans ih'
  | composition _ _ ih ih' => exact ih.trans ih'
  | compose _ _ _ _ _ _ ih ih' =>
    exact (((extends_advance _).trans ih).trans (extends_count _)).trans ih'
  | arithmetic _ _ ih ih' => exact (ih.trans (extends_primes _ _)).trans ih'
  | operate _ _ _ _ _ _ ih ih' =>
    exact (((extends_advance _).trans ih).trans (extends_arithmeticBox _ _ _ _)).trans ih'
  | ended | unexpected => exact extends_invalidBox _ _ _ rfl
  | leaf hrest => exact extends_leaf hrest
  | negative hrest _ hnumber => exact extends_negativeNumber hrest hnumber
  | parenthesisInvalid _ _ _ _ ih => exact (extends_advance _).trans ih
  | parenthesisUnclosed _ _ _ _ _ ih =>
    exact ((extends_advance _).trans ih).trans (extends_invalidBox _ _ _ rfl)
  | parenthesis _ _ _ _ _ ih => exact ((extends_advance _).trans ih).trans (extends_advance _)
  | callEmpty =>
    exact ((extends_opened _).trans (extends_reportNext _ _ rfl)).trans (extends_advance _)
  | call _ _ _ _ ih => exact (extends_opened _).trans ih
  | argumentInvalid _ _ ih => exact ih
  | argumentsMalformed _ _ _ ih => exact ih.trans (extends_reportNext _ _ rfl)
  | argumentsMore _ _ _ _ _ ih ih' => exact (ih.trans (extends_advance _)).trans ih'
  | argumentsEnd _ _ _ _ ih => exact ih.trans (extends_advance _)
  | localsSkip _ _ _ _ ih => exact ((extends_report _ _ _ rfl).trans (extends_recover _)).trans ih
  | localsMore _ _ _ _ ih ih' => exact ((extends_advance _).trans ih).trans ih'
  | headerUnreadable => exact (extends_header _).trans (extends_recover _)
  | headerUnended =>
    exact ((extends_header _).trans (extends_reportNext _ _ rfl)).trans (extends_recover _)
  | bodyInvalid _ _ _ _ ih =>
    exact (((extends_header _).trans (extends_advance _)).trans ih).trans (extends_recover _)
  | definition _ _ _ _ ih =>
    exact (((extends_header _).trans (extends_advance _)).trans ih).trans (extends_endStatement _ _)

theorem Reading.extends (h : Reading d job s r t b) : s.Extends t := by
  cases job with
  | definition => exact s.extends_advance.trans h.entry_extends
  | _ => exact h.entry_extends

theorem Reading.length_le (h : Reading d job s r t b) : t.rest.length ≤ s.rest.length := h.extends.length_le

/-! ## What the functions do -/

variable {token opening name : Token} {rest : List Token} {par : Bool} {box left : Box} {least : Nat}

theorem State.rest_eq_cons (s : State) (h : s.rest = token :: rest) :
    s.rest = token :: s.advance.rest := by
  rw [rest_advance_of_rest h, h]

theorem length_advance {s : State} (h : s.rest = token :: rest) :
    s.advance.rest.length + 1 = s.rest.length := by
  rw [rest_advance_of_rest h, h, length_cons]

/-- Recovery takes at least one token, unless a brace closes. -/
theorem length_recover {s : State} (hrest : s.rest = token :: rest)
    (h : token.isMark "\x7d" = false) : s.recover.rest.length + 1 ≤ s.rest.length := by
  have hskip (depth : Nat) : (skipStatement depth rest (some token)).1.length ≤ rest.length :=
    (took_skipStatement depth rest (some token)).suffix.length_le
  show (skipStatement 0 s.rest s.last).1.length + 1 ≤ s.rest.length
  rw [hrest, length_cons, skipStatement, h]
  apply Nat.succ_le_succ
  split
  · exact hskip _
  · split
    · exact hskip _
    · rw [if_neg (by decide)]
      split
      · exact Nat.le_refl _
      · exact hskip _

/-- A job can be done. -/
def Doable (d : Int) (job : Job) (s : State) : Prop := ∃ r t b, Reading d job s r t b

/-- Every job that needs less can be done. -/
def DoableBelow (d : Int) (job : Job) (s : State) : Prop := ∀ job' s', Job.need job' s' < job.need s → Doable d job' s'

namespace Doable

theorem expression (h : DoableBelow d (.expression par) s) : Doable d (.expression par) s := by
  by_cases hdeep : d < (s.enter.depth : Int)
  · exact ⟨_, _, _, .nested hdeep⟩
  · obtain ⟨box, t, _, hbox⟩ := h (.composition 1 par) s.enter (Nat.lt_succ_self _)
    have hle : t.rest.length ≤ s.rest.length := hbox.length_le
    obtain ⟨r, u, _, hblocks⟩ := h (.blocks box) t (by simp only [Job.need]; omega)
    exact ⟨_, _, _, .expression (Int.not_lt.mp hdeep) hbox hblocks⟩

theorem blocks (h : DoableBelow d (.blocks box) s) : Doable d (.blocks box) s := by
  cases hvalid : box.invalid with
  | true => exact ⟨_, _, _, .blocksDone (.inl hvalid)⟩
  | false =>
    by_cases hstop : BlocksStop s.rest
    · exact ⟨_, _, _, .blocksDone (.inr hstop)⟩
    obtain ⟨keyword, hhead, hkeyword⟩ : ∃ keyword ∈ s.rest.head?, keyword.isKeyword "with" := by
      simpa [BlocksStop] using hstop
    obtain ⟨rest, hrest⟩ := head?_eq_some_iff.mp hhead
    cases hopen : s.advance.atMark "\x7b" with
    | false => exact ⟨_, _, _, .blockMissing hvalid hrest hkeyword hopen⟩
    | true =>
      have hless := length_advance hrest
      have hle := s.advance.extends_advance.length_le
      obtain ⟨locals, t, _, hlocals⟩ := h (.localDefinitions []) s.advance.advance.count
        (by simp only [Job.need, rest_count]; omega)
      by_cases hend : t.rest = []
      · exact ⟨_, _, _, .blockUnclosed hvalid hrest hkeyword hopen hlocals hend⟩
      · have hle' : t.advance.rest.length ≤ s.advance.advance.rest.length :=
          (hlocals.extends.trans t.extends_advance).length_le
        obtain ⟨r, u, _, hmore⟩ := h (.blocks (.block (s.advance.advance.newMark keyword) box locals)) t.advance
          (by simp only [Job.need]; omega)
        exact ⟨_, _, _, .block hvalid hrest hkeyword hopen hlocals hend hmore⟩

theorem composition (h : DoableBelow d (.composition least par) s) :
    Doable d (.composition least par) s := by
  obtain ⟨left, t, _, hleft⟩ := h (.arithmetic 0) s (Nat.lt_succ_self _)
  have hle := hleft.length_le
  obtain ⟨r, u, _, hmore⟩ := h (.compositionRest least par left) t (by simp only [Job.need]; omega)
  exact ⟨_, _, _, .composition hleft hmore⟩

theorem compositionRest
    (h : DoableBelow d (.compositionRest least par left) s) : Doable d (.compositionRest least par left) s := by
  cases hvalid : left.invalid with
  | true => exact ⟨_, _, _, .compositionDone (.inl hvalid)⟩
  | false =>
    by_cases hstop : CompositionStops par least s.rest
    · exact ⟨_, _, _, .compositionDone (.inr hstop)⟩
    simp only [CompositionStops, Classical.not_forall, Nat.not_lt] at hstop
    obtain ⟨token, hhead, op, hop, hleast⟩ := hstop
    obtain ⟨rest, hrest⟩ := head?_eq_some_iff.mp hhead
    have hless := length_advance hrest
    obtain ⟨right, t, _, hright⟩ := h (.composition (op.precedence + 1) par) s.advance (by simp only [Job.need]; omega)
    have hle := hright.length_le
    obtain ⟨r, u, _, hmore⟩ := h (.compositionRest least par
      (.compose { t.newMark token with invalid := right.invalid } op left right)) t.count
      (by simp only [Job.need, rest_count]; omega)
    exact ⟨_, _, _, .compose hvalid hrest hop hleast hright hmore⟩

theorem arithmetic (h : DoableBelow d (.arithmetic least) s) : Doable d (.arithmetic least) s := by
  obtain ⟨box, t, _, hbox⟩ := h .primary s (Nat.lt_succ_self _)
  have hle := (hbox.extends.trans (extends_primes box t)).length_le
  obtain ⟨r, u, _, hmore⟩ := h (.arithmeticRest least (primes box t).1) (primes box t).2
    (by simp only [Job.need]; omega)
  exact ⟨_, _, _, .arithmetic hbox hmore⟩

theorem arithmeticRest (h : DoableBelow d (.arithmeticRest least left) s) :
    Doable d (.arithmeticRest least left) s := by
  cases hvalid : left.invalid with
  | true => exact ⟨_, _, _, .arithmeticDone (.inl hvalid)⟩
  | false =>
    by_cases hstop : ArithmeticStops least s.rest
    · exact ⟨_, _, _, .arithmeticDone (.inr hstop)⟩
    simp only [ArithmeticStops, Classical.not_forall, Nat.not_lt] at hstop
    obtain ⟨token, hhead, precedence, hop, hleast⟩ := hstop
    obtain ⟨rest, hrest⟩ := head?_eq_some_iff.mp hhead
    have hless := length_advance hrest
    obtain ⟨right, t, _, hright⟩ := h (.arithmetic (precedence + 1)) s.advance (by simp only [Job.need]; omega)
    have hle := (hright.extends.trans (extends_arithmeticBox token left right t)).length_le
    obtain ⟨r, u, _, hmore⟩ := h (.arithmeticRest least (arithmeticBox token left right t).1)
      (arithmeticBox token left right t).2 (by simp only [Job.need]; omega)
    exact ⟨_, _, _, .operate hvalid hrest hop hleast hright hmore⟩

theorem parenthesis (h : DoableBelow d .primary s)
    (hrest : s.rest = opening :: rest) (hopen : opening.isMark "(") : Doable d .primary s := by
  have hless := length_advance hrest
  obtain ⟨inner, t, _, hinner⟩ := h (.expression true) s.advance (by simp only [Job.need]; omega)
  cases hvalid : inner.invalid with
  | true => exact ⟨_, _, _, .parenthesisInvalid hrest hopen hinner hvalid⟩
  | false =>
    cases hclose : t.atMark ")" with
    | false => exact ⟨_, _, _, .parenthesisUnclosed hrest hopen hinner hvalid hclose⟩
    | true => exact ⟨_, _, _, .parenthesis hrest hopen hinner hvalid hclose⟩

theorem call (h : DoableBelow d .primary s) (hrest : s.rest = name :: rest)
    (hcall : CallAt name s) : Doable d .primary s := by
  cases hclose : s.advance.advance.count.atMark ")" with
  | true => exact ⟨_, _, _, .callEmpty hrest hcall hclose⟩
  | false =>
    have hless := length_advance hrest
    have hle := s.advance.extends_advance.length_le
    obtain ⟨⟨args, valid⟩, t, _, hargs⟩ := h (.arguments name.text (s.advance.place s.advance.peek) [])
      s.advance.advance.count (by simp only [Job.need, rest_count]; omega)
    exact ⟨_, _, _, .call hrest hcall hclose hargs⟩

theorem primary (h : DoableBelow d .primary s) : Doable d .primary s := by
  cases hrest : s.rest with
  | nil => exact ⟨_, _, _, .ended hrest⟩
  | cons token rest =>
    by_cases hname : token.kind = .identifier
    · cases hopen : s.advance.atMark "(" with
      | true => exact call h hrest ⟨.inl hname, hopen⟩
      | false => exact ⟨_, _, _, .leaf hrest (.inl ⟨hname, hopen⟩)⟩
    by_cases hnumber : token.kind = .number
    · exact ⟨_, _, _, .leaf hrest (.inr (.inl hnumber))⟩
    by_cases hstring : token.kind = .string
    · exact ⟨_, _, _, .leaf hrest (.inr (.inr (.inl hstring)))⟩
    cases hmark : token.isMark "(" with
    | true => exact parenthesis h hrest hmark
    | false =>
      cases hnegative : startsNegative s.rest with
      | true =>
        match rest, hrest with
        | [], hrest => simp [hrest, startsNegative] at hnegative
        | number :: rest, hrest =>
          have hsign : token.isOperator "-" ∧ number.kind = .number := by
            simpa [hrest, startsNegative] using hnegative
          exact ⟨_, _, _, .negative hrest hsign.1 hsign.2⟩
      | false =>
        cases hbox : isOperatorBox token with
        | false => exact ⟨_, _, _, .unexpected hrest ⟨hname, hnumber, hstring, hmark, hbox⟩⟩
        | true =>
          by_cases hcut : token.text = "!"
          · exact ⟨_, _, _, .leaf hrest (.inr (.inr (.inr ⟨hbox, hnegative, .inl hcut⟩)))⟩
          cases hopen : s.advance.atMark "(" with
          | true => exact call h hrest ⟨.inr ⟨hbox, hcut⟩, hopen⟩
          | false => exact ⟨_, _, _, .leaf hrest (.inr (.inr (.inr ⟨hbox, hnegative, .inr hopen⟩)))⟩

theorem arguments {name : String} {opening : Position} {args : List Box}
    (h : DoableBelow d (.arguments name opening args) s) : Doable d (.arguments name opening args) s := by
  obtain ⟨argument, t, _, hargument⟩ := h (.expression false) s (Nat.lt_succ_self _)
  have hle := hargument.length_le
  cases hvalid : argument.invalid with
  | true => exact ⟨_, _, _, .argumentInvalid hargument hvalid⟩
  | false =>
    by_cases hend : ∀ token ∈ t.rest.head?, token.isOperator "," = false ∧ token.isMark ")" = false
    · exact ⟨_, _, _, .argumentsMalformed hargument hvalid hend⟩
    obtain ⟨token, hhead, htoken⟩ : ∃ token ∈ t.rest.head?, token.isOperator "," ∨ token.isMark ")" := by
      simpa [Decidable.or_iff_not_imp_left] using hend
    obtain ⟨rest, hrest⟩ := head?_eq_some_iff.mp hhead
    cases hcomma : token.isOperator "," with
    | true =>
      have hless := length_advance hrest
      obtain ⟨r, u, _, hmore⟩ := h (.arguments name opening (args ++ [argument])) t.advance
        (by simp only [Job.need]; omega)
      exact ⟨_, _, _, .argumentsMore hargument hvalid hrest hcomma hmore⟩
    | false => exact ⟨_, _, _, .argumentsEnd hargument hvalid hrest (htoken.resolve_left (by simp [hcomma]))⟩

theorem localDefinitions {locals : List Definition} (h : DoableBelow d (.localDefinitions locals) s) :
    Doable d (.localDefinitions locals) s := by
  by_cases hdone : ∀ token ∈ s.rest.head?, token.isMark "\x7d"
  · exact ⟨_, _, _, .localsDone hdone⟩
  obtain ⟨token, hhead, hbrace⟩ : ∃ token ∈ s.rest.head?, token.isMark "\x7d" = false := by simpa using hdone
  obtain ⟨rest, hrest⟩ := head?_eq_some_iff.mp hhead
  have hless := length_advance hrest
  by_cases hname : token.kind = .identifier
  · obtain ⟨e, t, _, hdefinition⟩ := h (.definition token) s (by simp only [Job.need]; omega)
    have hle : t.rest.length ≤ s.advance.rest.length := hdefinition.entry_extends.length_le
    obtain ⟨r, u, _, hmore⟩ := h (.localDefinitions (locals ++ [e])) t (by simp only [Job.need]; omega)
    exact ⟨_, _, _, .localsMore hrest hname hdefinition hmore⟩
  · have hle : (s.report token.start (.unexpectedLocal token)).recover.rest.length + 1 ≤ s.rest.length :=
      length_recover (s := s.report _ _) hrest hbrace
    obtain ⟨r, u, _, hmore⟩ := h (.localDefinitions locals) (s.report token.start (.unexpectedLocal token)).recover
      (by simp only [Job.need]; omega)
    exact ⟨_, _, _, .localsSkip hrest hbrace hname hmore⟩

theorem definition (h : DoableBelow d (.definition name) s) : Doable d (.definition name) s := by
  cases hreadable : (header s).2.1 with
  | false => exact ⟨_, _, _, .headerUnreadable hreadable⟩
  | true =>
    cases hequals : (header s).2.2.peek.any (·.isOperator "=") with
    | false => exact ⟨_, _, _, .headerUnended hreadable hequals⟩
    | true =>
      have hle := ((extends_header s).trans (extends_advance _)).length_le
      obtain ⟨body, t, _, hbody⟩ := h (.expression true) (header s).2.2.advance (by simp only [Job.need]; omega)
      cases hvalid : body.invalid with
      | true => exact ⟨_, _, _, .bodyInvalid hreadable hequals hbody hvalid⟩
      | false => exact ⟨_, _, _, .definition hreadable hequals hbody hvalid⟩

end Doable

/-- Every job can be done: it asks only for jobs that need less. -/
theorem doable (d : Int) (job : Job) (s : State) : Doable d job s := by
  induction hneed : job.need s using Nat.strongRecOn generalizing job s with
  | _ need ih =>
    subst hneed
    have hbelow : DoableBelow d job s := fun job' s' hless => ih _ hless job' s' rfl
    cases job with
    | expression => exact .expression hbelow
    | blocks => exact .blocks hbelow
    | composition => exact .composition hbelow
    | compositionRest => exact .compositionRest hbelow
    | arithmetic => exact .arithmetic hbelow
    | arithmeticRest => exact .arithmeticRest hbelow
    | primary => exact .primary hbelow
    | arguments => exact .arguments hbelow
    | localDefinitions => exact .localDefinitions hbelow
    | definition => exact .definition hbelow

/-! ## What the functions do -/

variable {fuel : Nat}

theorem Job.exists_succ (h : job.need s ≤ fuel) : ∃ k, fuel = k + 1 := by
  cases fuel with
  | zero => cases job <;> cases h
  | succ k => exact ⟨k, rfl⟩

theorem exists_succ_of_two {n : Nat} (h : n + 2 ≤ fuel + 1) : ∃ k, fuel = k + 1 := ⟨fuel - 1, by omega⟩

theorem kind_of_isOperatorBox (h : isOperatorBox token) : token.kind = .operator := by
  simp only [isOperatorBox, Bool.and_eq_true, beq_iff_eq] at h
  exact h.1

theorem primary_of_leafAt (hrest : s.rest = token :: rest) (h : LeafAt token s)
    (fuel : Nat) : primary d (fuel + 1) s = leaf token s := by
  rw [primary, hrest]
  rcases h with ⟨hname, hopen⟩ | hnumber | hstring | ⟨hbox, hnegative, hopen⟩
  · simp [hname, hopen]
  · simp [hnumber]
  · simp [hstring]
  · rw [hrest] at hnegative
    have hcall : (decide (token.text ≠ "!") && s.advance.atMark "(") = false := by
      rcases hopen with hcut | hopen <;> simp [*]
    simp only [kind_of_isOperatorBox hbox, Token.isMark, hnegative, hbox, hcall]
    rfl

theorem primary_of_callAt (hrest : s.rest = name :: rest) (h : CallAt name s)
    (fuel : Nat) : primary d (fuel + 1) s = Parser.call d fuel name s.advance := by
  obtain ⟨hname | ⟨hbox, hcut⟩, hopen⟩ := h
  · rw [primary, hrest]
    simp [hname, hopen]
  · have hnegative : startsNegative (name :: rest) = false := by
      cases rest with
      | nil => rfl
      | cons opening rest =>
        have hmark : opening.isMark "(" := by simpa [atMark, peek, hrest] using hopen
        have hkind : opening.kind = .punctuation := by
          simp only [Token.isMark, Bool.and_eq_true, beq_iff_eq] at hmark
          exact hmark.1
        simp [startsNegative, hkind]
    rw [primary, hrest]
    simp [kind_of_isOperatorBox hbox, Token.isMark, hnegative, hbox, hcut, hopen]

theorem primary_of_noBox (hrest : s.rest = token :: rest) (h : NoBox token)
    (fuel : Nat) : primary d (fuel + 1) s = s.fail (.unexpectedToken token) token := by
  have hsign : token.isOperator "-" = false := by
    cases hsign : token.isOperator "-" with
    | false => rfl
    | true =>
      -- A minus sign is a box.
      have hbox := h.operator
      have htext : token.kind = .operator ∧ token.text = "-" := by simpa [Token.isOperator] using hsign
      rw [isOperatorBox, htext.1, htext.2] at hbox
      exact absurd hbox (by decide)
  have hnegative : startsNegative (token :: rest) = false := by
    cases rest <;> simp [startsNegative, hsign]
  rw [primary, hrest]
  simp only [h.identifier, h.number, h.string, h.opening, hnegative, h.operator]
  rfl

theorem primary_of_opening (hrest : s.rest = opening :: rest)
    (hopen : opening.isMark "(") (fuel : Nat) : primary d (fuel + 1) s = parenthesis d fuel opening s := by
  have hkind : opening.kind = .punctuation := by
    simp only [Token.isMark, Bool.and_eq_true, beq_iff_eq] at hopen
    exact hopen.1
  rw [primary, hrest]
  simp [hkind, hopen]

theorem primary_of_negative {sign number : Token} (hrest : s.rest = sign :: number :: rest)
    (hsign : sign.isOperator "-") (hnumber : number.kind = .number) (fuel : Nat) :
    primary d (fuel + 1) s = negativeNumber sign number s := by
  have hkind : sign.kind = .operator := by
    simp only [Token.isOperator, Bool.and_eq_true, beq_iff_eq] at hsign
    exact hsign.1
  rw [primary, hrest]
  simp [hkind, Token.isMark, startsNegative, hsign, hnumber]

theorem blocks_of_done (h : box.invalid ∨ BlocksStop s.rest) (fuel : Nat) :
    blocks d (fuel + 1) box s = (box, s) := by
  rw [blocks]
  cases hrest : s.rest with
  | nil => simp
  | cons token rest =>
    rcases h with h | h
    · simp [h]
    · simp [h token (by simp [hrest])]

theorem compositionRest_of_done (h : left.invalid ∨ CompositionStops par least s.rest) (fuel : Nat) :
    compositionRest d (fuel + 1) least par left s = (left, s) := by
  rw [compositionRest]
  split
  · rfl
  · rename_i hvalid
    split
    · rfl
    · rename_i token rest hrest
      split
      · rfl
      · rename_i op hop
        rw [if_pos (h.resolve_left hvalid token (by simp [hrest]) op hop)]

theorem arithmeticRest_of_done (h : left.invalid ∨ ArithmeticStops least s.rest) (fuel : Nat) :
    arithmeticRest d (fuel + 1) least left s = (left, s) := by
  rw [arithmeticRest]
  split
  · rfl
  · rename_i hvalid
    split
    · rfl
    · rename_i token rest hrest
      split
      · rfl
      · rename_i precedence hop
        rw [if_pos (h.resolve_left hvalid token (by simp [hrest]) precedence hop)]

theorem blocks_of_with {keyword : Token} (hvalid : box.invalid = false)
    (hrest : s.rest = keyword :: rest) (hkeyword : keyword.isKeyword "with") :
    blocks d (fuel + 1) box s = blocks d fuel (block d fuel keyword box s).1 (block d fuel keyword box s).2 := by
  rw [blocks, hrest]
  simp [hvalid, hkeyword]

theorem isOperator_of_isMark {text : String} (h : token.isMark text) (text' : String) :
    token.isOperator text' = false := by
  simp only [Token.isMark, Bool.and_eq_true, beq_iff_eq] at h
  simp [Token.isOperator, h.1]

theorem isMark_of_identifier (h : token.kind = .identifier) (text : String) :
    token.isMark text = false := by
  simp [Token.isMark, h]

theorem length_opened (h : s.rest = token :: rest) :
    s.advance.advance.count.rest.length + 1 ≤ s.rest.length := by
  have hle : s.advance.advance.rest.length ≤ s.advance.rest.length := s.advance.extends_advance.length_le
  have hless := length_advance h
  rw [rest_count]
  omega

/-- With fuel that covers a job its function does it. -/
theorem Reading.run_eq (h : Reading d job s r t b) (hfuel : job.need s ≤ fuel) : job.run d fuel s = (r, t) := by
  -- Every case takes a unit of fuel, some a second one.
  induction h generalizing fuel with obtain ⟨fuel, rfl⟩ := Job.exists_succ hfuel
  | nested h =>
    rw [Job.run, Parser.expression]
    rw [if_pos (by exact h)]
    rfl
  | expression h hbox _ ih ih' =>
    have hle := hbox.length_le
    have hbox' := @ih fuel (Nat.le_of_succ_le_succ hfuel)
    have hblocks := @ih' fuel (by simp only [Job.need, enter] at *; omega)
    simp only [Job.run, enter] at hbox' hblocks
    rw [Job.run, Parser.expression]
    dsimp only
    rw [if_neg (by exact Int.not_lt.mpr h), hbox', hblocks]
    rfl
  | blocksDone h => rw [Job.run, blocks_of_done h]
  | blockMissing hvalid hrest hkeyword hopen =>
    obtain ⟨fuel, rfl⟩ := exists_succ_of_two hfuel
    rw [Job.run, blocks_of_with hvalid hrest hkeyword, Parser.block, hopen]
    exact blocks_of_done (.inl rfl) _
  | blockUnclosed hvalid hrest hkeyword hopen _ hend ih =>
    obtain ⟨fuel, rfl⟩ := exists_succ_of_two hfuel
    have hless := length_opened hrest
    have hlocals := @ih fuel (by simp only [Job.need, rest_count] at *; omega)
    rw [Job.run] at hlocals
    rw [Job.run, blocks_of_with hvalid hrest hkeyword, Parser.block]
    simp only [hopen, hlocals, hend, Bool.not_true, Bool.false_eq_true, if_false, isEmpty_nil, if_true]
    exact blocks_of_done (.inl rfl) _
  | block hvalid hrest hkeyword hopen hread hend _ ih ih' =>
    obtain ⟨fuel, rfl⟩ := exists_succ_of_two hfuel
    have hless := length_opened hrest
    have hle' := (hread.extends.trans (extends_advance _)).length_le
    have hlocals := @ih fuel (by simp only [Job.need, rest_count] at *; omega)
    have hmore := @ih' (fuel + 1) (by simp only [Job.need, rest_count] at *; omega)
    simp only [Job.run] at hlocals hmore
    rw [Job.run, blocks_of_with hvalid hrest hkeyword, Parser.block]
    simp only [hopen, hlocals, hend, Bool.not_true, Bool.false_eq_true, if_false, List.isEmpty_iff]
    exact hmore
  | composition hread _ ih ih' =>
    have hle := hread.length_le
    have hleft := @ih fuel (Nat.le_of_succ_le_succ hfuel)
    have hmore := @ih' fuel (by simp only [Job.need] at *; omega)
    simp only [Job.run] at hleft hmore
    rw [Job.run, Parser.composition, hleft]
    exact hmore
  | compositionDone h => rw [Job.run, compositionRest_of_done h]
  | compose hvalid hrest hop hleast hread _ ih ih' =>
    have hless := length_advance hrest
    have hle := hread.length_le
    have hright := @ih fuel (by simp only [Job.need] at *; omega)
    have hmore := @ih' fuel (by simp only [Job.need, rest_count] at *; omega)
    simp only [Job.run] at hright hmore
    rw [Job.run, Parser.compositionRest, hrest]
    simp only [hvalid, hop, Nat.not_lt.mpr hleast, hright, hmore, Bool.false_eq_true, if_false]
  | @arithmetic _ _ box t _ _ _ _ hread _ ih ih' =>
    have hle := (hread.extends.trans (extends_primes box t)).length_le
    have hbox := @ih fuel (Nat.le_of_succ_le_succ hfuel)
    have hmore := @ih' fuel (by simp only [Job.need] at *; omega)
    simp only [Job.run] at hbox hmore
    rw [Job.run, Parser.arithmetic, hbox]
    exact hmore
  | arithmeticDone h => rw [Job.run, arithmeticRest_of_done h]
  | @operate _ left _ token _ _ right t _ _ _ _ hvalid hrest hop hleast hread _ ih ih' =>
    have hless := length_advance hrest
    have hle := (hread.extends.trans (extends_arithmeticBox token left right t)).length_le
    have hright := @ih fuel (by simp only [Job.need] at *; omega)
    have hmore := @ih' fuel (by simp only [Job.need] at *; omega)
    simp only [Job.run] at hright hmore
    rw [Job.run, Parser.arithmeticRest, hrest]
    simp only [hvalid, hop, Nat.not_lt.mpr hleast, hright, hmore, Bool.false_eq_true, if_false]
  | ended h =>
    rw [Job.run, primary, h]
    rfl
  | unexpected hrest h => rw [Job.run, primary_of_noBox hrest h]
  | leaf hrest h => rw [Job.run, primary_of_leafAt hrest h]
  | negative hrest hsign hnumber => rw [Job.run, primary_of_negative hrest hsign hnumber]
  | parenthesisInvalid hrest hopen _ hinvalid ih =>
    obtain ⟨fuel, rfl⟩ := exists_succ_of_two hfuel
    have hless := length_advance hrest
    have hinner := @ih fuel (by simp only [Job.need] at *; omega)
    simp only [Job.run] at hinner
    rw [Job.run, primary_of_opening hrest hopen, Parser.parenthesis, hinner]
    simp only [hinvalid, if_true]
  | parenthesisUnclosed hrest hopen _ hvalid hclose ih =>
    obtain ⟨fuel, rfl⟩ := exists_succ_of_two hfuel
    have hless := length_advance hrest
    have hinner := @ih fuel (by simp only [Job.need] at *; omega)
    simp only [Job.run] at hinner
    rw [Job.run, primary_of_opening hrest hopen, Parser.parenthesis, hinner]
    simp only [hvalid, hclose, Bool.false_eq_true, if_false]
    rfl
  | parenthesis hrest hopen _ hvalid hclose ih =>
    obtain ⟨fuel, rfl⟩ := exists_succ_of_two hfuel
    have hless := length_advance hrest
    have hinner := @ih fuel (by simp only [Job.need] at *; omega)
    simp only [Job.run] at hinner
    rw [Job.run, primary_of_opening hrest hopen, Parser.parenthesis, hinner]
    simp only [hvalid, hclose, Bool.false_eq_true, if_false, if_true]
  | callEmpty hrest h hclose =>
    obtain ⟨fuel, rfl⟩ := exists_succ_of_two hfuel
    rw [Job.run, primary_of_callAt hrest h, Parser.call]
    simp only [hclose, if_true]
  | call hrest h hclose _ ih =>
    obtain ⟨fuel, rfl⟩ := exists_succ_of_two hfuel
    have hless := length_opened hrest
    have hargs := @ih fuel (by simp only [Job.need] at *; omega)
    simp only [Job.run, Prod.mk.injEq] at hargs
    rw [Job.run, primary_of_callAt hrest h, Parser.call]
    simp only [hclose, hargs, Bool.false_eq_true, if_false]
  | argumentInvalid _ hinvalid ih =>
    have hargument := @ih fuel (Nat.le_of_succ_le_succ hfuel)
    simp only [Job.run] at hargument
    simp only [Job.run, Parser.arguments, hargument, hinvalid, if_true]
  | argumentsMalformed _ hvalid h ih =>
    have hargument := @ih fuel (Nat.le_of_succ_le_succ hfuel)
    simp only [Job.run] at hargument
    simp only [Job.run, Parser.arguments, hargument, hvalid, Bool.false_eq_true, if_false]
    split
    · rename_i hrest
      simp [peek, hrest]
    · rename_i token rest hrest
      have htoken := h token (by simp [hrest])
      simp [peek, hrest, htoken]
  | argumentsMore hread hvalid hrest hcomma _ ih ih' =>
    have hle := hread.length_le
    have hless := length_advance hrest
    have hargument := @ih fuel (Nat.le_of_succ_le_succ hfuel)
    have hmore := @ih' fuel (by simp only [Job.need] at *; omega)
    simp only [Job.run] at hargument hmore
    simp only [Job.run, Parser.arguments, hargument, hvalid, hrest, hcomma, Bool.false_eq_true, if_false,
      if_true, hmore]
  | argumentsEnd _ hvalid hrest hclosing ih =>
    have hargument := @ih fuel (Nat.le_of_succ_le_succ hfuel)
    simp only [Job.run] at hargument
    have hcomma := isOperator_of_isMark hclosing ","
    simp only [Job.run, Parser.arguments, hargument, hvalid, hrest, hcomma, hclosing, Bool.false_eq_true,
      if_false, if_true]
  | localsDone h =>
    rw [Job.run, Parser.localDefinitions]
    split
    · rfl
    · rename_i token rest hrest
      simp [h token (by simp [hrest])]
  | @localsSkip _ s token _ _ _ _ hrest hbrace hname _ ih =>
    obtain ⟨fuel, rfl⟩ := exists_succ_of_two hfuel
    have hless : (s.report token.start (.unexpectedLocal token)).recover.rest.length + 1 ≤ s.rest.length :=
      length_recover (s := s.report _ _) hrest hbrace
    have hmore := @ih (fuel + 1) (by simp only [Job.need] at *; omega)
    simp only [Job.run] at hmore
    rw [Job.run, Parser.localDefinitions, hrest]
    simp only [hbrace, Bool.false_eq_true, if_false, Parser.localRound, hname, append_nil, hmore]
  | localsMore hrest hname hread _ ih ih' =>
    obtain ⟨fuel, rfl⟩ := exists_succ_of_two hfuel
    have hless := length_advance hrest
    have hle := hread.entry_extends.length_le
    have hdefinition := @ih fuel (by simp only [Job.need] at *; omega)
    have hmore := @ih' (fuel + 1) (by simp only [Job.need, Job.entry] at *; omega)
    simp only [Job.run] at hdefinition hmore
    have hbrace := isMark_of_identifier hname "\x7d"
    rw [Job.run, Parser.localDefinitions, hrest]
    simp only [hbrace, Bool.false_eq_true, if_false, Parser.localRound, hname, if_true, hdefinition, hmore]
  | headerUnreadable hreadable =>
    rw [header] at hreadable
    rw [Job.run, Parser.definition]
    simp only [hreadable, Bool.not_false, if_true]
    rfl
  | headerUnended hreadable hequals =>
    rw [header] at hreadable hequals
    rw [Job.run, Parser.definition]
    simp only [hreadable, hequals, Bool.not_true, Bool.not_false, Bool.false_eq_true, if_false, if_true]
    rfl
  | @bodyInvalid _ s _ _ _ hreadable hequals hread hinvalid ih =>
    have hle := ((extends_header s).trans (extends_advance _)).length_le
    have hbody := @ih fuel (by simp only [Job.need] at *; omega)
    rw [header] at hreadable hequals
    simp only [Job.run, header] at hbody
    rw [Job.run, Parser.definition]
    simp only [hreadable, hequals, Bool.not_true, Bool.false_eq_true, if_false, hbody, hinvalid, if_true]
    rfl
  | @definition _ s _ _ _ hreadable hequals hread hvalid ih =>
    have hle := ((extends_header s).trans (extends_advance _)).length_le
    have hbody := @ih fuel (by simp only [Job.need] at *; omega)
    rw [header] at hreadable hequals
    simp only [Job.run, header] at hbody
    rw [Job.run, Parser.definition]
    simp only [hreadable, hequals, Bool.not_true, Bool.false_eq_true, if_false, hbody, hvalid]
    rfl

/-- A job gives one result. -/
theorem Reading.unique {r' : job.Result} {t' : State} {b' : Braces} (h : Reading d job s r t b)
    (h' : Reading d job s r' t' b') : r = r' ∧ t = t' :=
  Prod.mk.inj ((h.run_eq (Nat.le_refl _)).symm.trans (h'.run_eq (Nat.le_refl _)))

/-- What a function gives with fuel that covers its job. -/
theorem gives_run (d : Int) (job : Job) (s : State) (hfuel : job.need s ≤ fuel) :
    Gives d job s (job.run d fuel s).1 (job.run d fuel s).2 := by
  obtain ⟨r, t, b, h⟩ := doable d job s
  rw [h.run_eq hfuel]
  exact ⟨b, h⟩

/-- The fuel for a statement covers a definition. -/
theorem need_definition_le (name : Token) (s : State) : (Job.definition name).need s ≤ fuelFor s := by
  have hle := s.extends_advance.length_le
  simp only [Job.need, fuelFor]
  omega

theorem gives_definition (d : Int) (name : Token) (s : State) :
    Gives d (.definition name) s (Parser.definition d (fuelFor s) name s).1
      (Parser.definition d (fuelFor s) name s).2 :=
  gives_run d _ s (need_definition_le name s)

theorem Gives.definition_eq {e : Definition} (h : Gives d (.definition name) s e t) :
    Parser.definition d (fuelFor s) name s = (e, t) :=
  h.choose_spec.run_eq (need_definition_le name s)

end Patchbay.Parser
