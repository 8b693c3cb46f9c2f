import Patchbay.Program
import Patchbay.Token.Scan

/-!
# Reading programs

Statements are read one after another. What cannot be read is reported, marked invalid, and skipped up to
the end of the statement, so that one mistake does not hide the next statement.

Boxes are read by precedence: composition operators on the outside, arithmetic inside, then primes, then
single boxes. Functions that read boxes call each other, so they take fuel; no call that consumes nothing
goes deeper than a few levels, and `fuelFor` covers every list of tokens. If the fuel ran out, the state would tell.
-/

namespace Patchbay.Parser

/-! ## The state of reading -/

/-- What has been read and what is left. -/
structure State where
  /-- Tokens still to be read. -/
  rest : List Token
  /-- The token read last. -/
  last : Option Token
  /-- How many expressions are open. -/
  depth : Nat
  /-- The number given to the newest node. -/
  lastId : Nat
  findings : List Finding
  /-- Whether a number too large for a double was read. -/
  oversized : Bool
  /-- Whether the fuel ran out. -/
  starved : Bool
deriving Repr, Inhabited

/-- Nothing read yet. -/
def State.start (tokens : List Token) : State := ⟨tokens, none, 0, 0, [], false, false⟩

namespace State

/-- The next token. -/
def peek (s : State) : Option Token := s.rest.head?

/-- The state after reading one token. -/
def advance (s : State) : State :=
  match s.rest with
  | [] => s
  | token :: rest => { s with rest := rest, last := some token }

/-- Whether the next token is this punctuation mark. -/
def atMark (s : State) (text : String) : Bool := s.peek.any (·.isMark text)

/-- The place of a token; at the end of the text, the place after the last token. -/
def place (s : State) (token : Option Token) : Position :=
  match token with
  | some token => token.start
  | none =>
    match s.last with
    | some last => last.stop
    | none => .start

/-- Adds a finding. -/
def report (s : State) (position : Position) (issue : Issue) : State :=
  { s with findings := s.findings ++ [⟨position, issue⟩] }

/-- Adds a finding at the next token. -/
def reportNext (s : State) (issue : Issue) : State := s.report (s.place s.peek) issue

/-- The mark of a new node at a token. -/
def newMark (s : State) (token : Option Token) : Mark := ⟨s.lastId + 1, s.place token, false⟩

/-- The state after giving a number to a new node. -/
def count (s : State) : State := { s with lastId := s.lastId + 1 }

/-- The state when the fuel has run out. -/
def starve (s : State) : State := { s with starved := true }

/-- A new node that stands for what could not be read. -/
def invalidBox (s : State) (token : Option Token) : Box × State :=
  (.ref { s.newMark token with invalid := true } "", s.count)

end State

/-! ## Recovery -/

/-- Skips to the end of a statement: past the next `;` outside brackets opened on the way, but never
past a closing brace that was not opened on the way. Gives the tokens left and the last one skipped. -/
def skipStatement (depth : Nat) : List Token → Option Token → List Token × Option Token
  | [], last => ([], last)
  | t :: ts, last =>
    if t.isMark "(" || t.isMark "\x7b" then skipStatement (depth + 1) ts (some t)
    else if t.isMark ")" then skipStatement (depth - 1) ts (some t)
    else if t.isMark "\x7d" then
      if depth = 0 then (t :: ts, last) else skipStatement (depth - 1) ts (some t)
    else if t.isMark ";" && depth = 0 then (ts, some t)
    else skipStatement depth ts (some t)

/-- The state after skipping to the end of a statement. -/
def State.recover (s : State) : State :=
  let (rest, last) := skipStatement 0 s.rest s.last
  { s with rest := rest, last := last }

/-- Whether a token starts on a later line than the last one ended, and can start a statement. -/
def State.startsStatement (s : State) (token : Token) : Bool :=
  match s.last with
  | none => false
  | some last =>
    decide (last.stop.line < token.start.line) && (token.kind == .identifier || token.kind == .keyword)

/-- Reads the semicolon that ends a statement. Without one the reader skips, unless a new statement seems
to start on the next line or a block ends. -/
def endStatement (what : String) (s : State) : Bool × State :=
  match s.rest with
  | [] => (false, s.report (s.place none) (.missingSemicolon what none))
  | token :: _ =>
    if token.isMark ";" then (true, s.advance)
    else if token.isMark ")" then (false, (s.report token.start .unmatchedParenthesis).recover)
    else
      -- The semicolon is missing where the last token ended.
      let position := match s.last with
        | some last => last.stop
        | none => token.start
      let s' := s.report position (.missingSemicolon what (some token))
      if token.isMark "\x7d" || s.startsStatement token then (false, s') else (false, s'.recover)

/-! ## Texts of tokens -/

/-- Each escaped quote becomes a quote. -/
def unescapeQuotes : List Char → List Char
  | '\\' :: '"' :: cs => '"' :: unescapeQuotes cs
  | c :: cs => c :: unescapeQuotes cs
  | [] => []

/-- Each doubled backslash becomes one. -/
def unescapeBackslashes : List Char → List Char
  | '\\' :: '\\' :: cs => '\\' :: unescapeBackslashes cs
  | c :: cs => c :: unescapeBackslashes cs
  | [] => []

/-- The text between the quotes of a string token, with escapes undone: first those of quotes, then
those of backslashes. -/
def unquote (text : String) : String :=
  String.ofList (unescapeBackslashes (unescapeQuotes (text.toList.drop 1).dropLast))

/-- The value of a number token; one that is too large is noted. -/
def State.numberOf (s : State) (token : Token) : Binary64 × State :=
  match Number.ofNumeral? token.text.toList with
  | some value => (value, s)
  | none => (.infinite false, { s with oversized := true })

/-! ## Imports, declarations and parameters -/

/-- Reads an import; none if it names no library. -/
def importStatement (s : State) : Option Import × State :=
  let keyword := s.peek
  let s := s.advance
  if !s.atMark "(" then (none, (s.reportNext .importWithoutParenthesis).recover)
  else
    let s := s.advance
    match s.rest with
    | [] => (none, (s.reportNext .importWithoutName).recover)
    | token :: _ =>
      if token.kind ≠ .string then (none, (s.reportNext .importWithoutName).recover)
      else
        let s := s.advance
        let s :=
          if s.atMark ")" then (endStatement "import statement" s.advance).2
          else (s.reportNext .importUnclosed).recover
        (some ⟨s.newMark keyword, unquote token.text⟩, s.count)

/-- Reads a declaration; none if it lacks a key or a value. -/
def declareStatement (s : State) : Option Declaration × State :=
  let keyword := s.peek
  let s := s.advance
  let names := s.rest.takeWhile (·.kind == .identifier)
  let s := names.foldl (fun s _ => s.advance) s
  match s.rest with
  | [] => (none, (s.reportNext .malformedDeclaration).recover)
  | token :: _ =>
    if names.isEmpty || token.kind ≠ .string then (none, (s.reportNext .malformedDeclaration).recover)
    else
      let s := (endStatement "declaration" s.advance).2
      (some ⟨s.newMark keyword, " ".intercalate (names.map (·.text)), unquote token.text⟩, s.count)

/-- Whether a token may be a parameter: a name without a point. -/
def isParameter (t : Token) : Bool := t.kind == .identifier && !t.text.toList.contains '.'

/-- What reading a list of parameters gives. -/
structure Parameters where
  names : List String
  rest : List Token
  last : Option Token
  /-- What is wrong with the first token that does not fit. -/
  issue : Option Issue

/-- Reads parameters after the opening parenthesis up to the closing one. -/
def parametersFrom (names : List String) : List Token → Option Token → Parameters
  | [], last => ⟨names, [], last, some (.expectedParameter none)⟩
  | [t], last =>
    if isParameter t then ⟨names ++ [t.text], [], some t, some (.malformedParameters none)⟩
    else ⟨names, [t], last, some (.expectedParameter (some t))⟩
  | t :: u :: rest, last =>
    if !isParameter t then ⟨names, t :: u :: rest, last, some (.expectedParameter (some t))⟩
    else if u.isOperator "," then parametersFrom (names ++ [t.text]) rest (some u)
    else if u.isMark ")" then ⟨names ++ [t.text], rest, some u, none⟩
    else ⟨names ++ [t.text], u :: rest, some t, some (.malformedParameters (some u))⟩

/-- Reads the parameters of a definition, if there are any; the flag tells whether they could be read. -/
def parameters (s : State) : List String × Bool × State :=
  if !s.atMark "(" then ([], true, s)
  else
    let s := s.advance
    let read := parametersFrom [] s.rest s.last
    let s := { s with rest := read.rest, last := read.last }
    match read.issue with
    | none => (read.names, true, s)
    | some issue => (read.names, false, s.reportNext issue)

/-! ## Boxes -/

/-- How tight an arithmetic operator binds; all bind tighter than compositions. -/
def arithmeticPrecedence? (text : String) : Option Nat :=
  if ["<", ">", "<=", ">=", "==", "!="].contains text then some 5
  else if ["+", "-", "|"].contains text then some 6
  else if ["*", "/", "%", "&", "<<", ">>"].contains text then some 7
  else if ["@", "^"].contains text then some 8
  else none

/-- The arithmetic operator of a token, by its precedence. -/
def arithmeticOf? (token : Token) : Option Nat :=
  if token.kind = .operator then arithmeticPrecedence? token.text else none

/-- Operators that are boxes when they stand alone. -/
def isOperatorBox (token : Token) : Bool :=
  token.kind == .operator && ((arithmeticPrecedence? token.text).isSome || token.text == "!")

/-- The composition operator of a token. A comma separates arguments where they are read. -/
def compositionOf? (allowPar : Bool) (token : Token) : Option Operator :=
  if token.kind = .operator then
    match Operator.ofSymbol? token.text with
    | some .par => if allowPar then some .par else none
    | op => op
  else none

/-- The box of `left op right` for an arithmetic operator: both operands side by side, led into the
operator's box. -/
def arithmeticBox (token : Token) (left right : Box) (s : State) : Box × State :=
  let pair : Box := .compose { s.newMark token with invalid := right.invalid } .par left right
  let s := s.count
  let box : Box := .ref (s.newMark token) token.text
  let s := s.count
  (.compose { s.newMark token with invalid := right.invalid } .seq pair box, s.count)

/-- Reads one prime after a box: a delay by one sample. -/
def prime (read : Box × State) (token : Token) : Box × State :=
  let s := read.2.advance
  let delay : Box := .ref (s.newMark token) "mem"
  let s := s.count
  (.compose (s.newMark token) .seq read.1 delay, s.count)

/-- Reads the primes after a box. -/
def primes (box : Box) (s : State) : Box × State :=
  if box.invalid then (box, s)
  else (s.rest.takeWhile (·.isOperator "'")).foldl prime (box, s)

/-- Reads a box that is a single token, `token`, which comes next. -/
def leaf (token : Token) (s : State) : Box × State :=
  let s := s.advance
  match token.kind with
  | .number =>
    let (value, s) := s.numberOf token
    (.number (s.newMark token) value token.text, s.count)
  | .string => (.string (s.newMark token) (unquote token.text), s.count)
  | _ => (.ref (s.newMark token) token.text, s.count)

/-- Reads a negative number: a minus sign, `sign`, with the number `token` right after it. -/
def negativeNumber (sign token : Token) (s : State) : Box × State :=
  let (value, s) := s.advance.advance.numberOf token
  (.number (s.newMark sign) (-value) ("-" ++ token.text), s.count)

/-- Whether the tokens start with a minus sign and a number. -/
def startsNegative : List Token → Bool
  | sign :: token :: _ => sign.isOperator "-" && token.kind == .number
  | _ => false

mutual

/-- Reads an expression: a composition, and the blocks of definitions that belong to it. -/
def expression (maxDepth : Int) : (fuel : Nat) → (allowPar : Bool) → State → Box × State
  | 0, _, s => s.starve.invalidBox s.peek
  | fuel + 1, allowPar, s =>
    let s := { s with depth := s.depth + 1 }
    let (box, s) :=
      if (s.depth : Int) > maxDepth then
        (s.reportNext (.nestedTooDeeply maxDepth)).invalidBox s.peek
      else
        let (box, s) := composition maxDepth fuel 1 allowPar s
        blocks maxDepth fuel box s
    (box, { s with depth := s.depth - 1 })

/-- Reads the blocks after a box. -/
def blocks (maxDepth : Int) : (fuel : Nat) → Box → State → Box × State
  | 0, box, s => (box, s.starve)
  | fuel + 1, box, s =>
    if box.invalid then (box, s)
    else
      match s.rest with
      | [] => (box, s)
      | token :: _ =>
        if token.isKeyword "with" then
          let (box, s) := block maxDepth fuel token box s
          blocks maxDepth fuel box s
        else (box, s)

/-- Reads a composition of operators of at least the given precedence. -/
def composition (maxDepth : Int) : (fuel least : Nat) → (allowPar : Bool) → State → Box × State
  | 0, _, _, s => s.starve.invalidBox s.peek
  | fuel + 1, least, allowPar, s =>
    let (left, s) := arithmetic maxDepth fuel 0 s
    compositionRest maxDepth fuel least allowPar left s

/-- Reads what is composed with `left`, from left to right. -/
def compositionRest (maxDepth : Int) :
    (fuel least : Nat) → (allowPar : Bool) → Box → State → Box × State
  | 0, _, _, left, s => (left, s.starve)
  | fuel + 1, least, allowPar, left, s =>
    if left.invalid then (left, s)
    else
      match s.rest with
      | [] => (left, s)
      | token :: _ =>
        match compositionOf? allowPar token with
        | none => (left, s)
        | some op =>
          if op.precedence < least then (left, s)
          else
            let (right, s) := composition maxDepth fuel (op.precedence + 1) allowPar s.advance
            let mark := { s.newMark token with invalid := right.invalid }
            compositionRest maxDepth fuel least allowPar (.compose mark op left right) s.count

/-- Reads an arithmetic expression of operators of at least the given precedence. -/
def arithmetic (maxDepth : Int) : (fuel least : Nat) → State → Box × State
  | 0, _, s => s.starve.invalidBox s.peek
  | fuel + 1, least, s =>
    let (left, s) := primary maxDepth fuel s
    let (left, s) := primes left s
    arithmeticRest maxDepth fuel least left s

/-- Reads the operators and operands after `left`, from left to right. -/
def arithmeticRest (maxDepth : Int) : (fuel least : Nat) → Box → State → Box × State
  | 0, _, left, s => (left, s.starve)
  | fuel + 1, least, left, s =>
    if left.invalid then (left, s)
    else
      match s.rest with
      | [] => (left, s)
      | token :: _ =>
        match arithmeticOf? token with
        | none => (left, s)
        | some precedence =>
          if precedence < least then (left, s)
          else
            let (right, s) := arithmetic maxDepth fuel (precedence + 1) s.advance
            let (box, s) := arithmeticBox token left right s
            arithmeticRest maxDepth fuel least box s

/-- Reads a single box. -/
def primary (maxDepth : Int) : (fuel : Nat) → State → Box × State
  | 0, s => s.starve.invalidBox s.peek
  | fuel + 1, s =>
    match s.rest with
    | [] => (s.reportNext .unexpectedEnd).invalidBox none
    | token :: following =>
      if token.kind = .identifier then
        if s.advance.atMark "(" then call maxDepth fuel token s.advance else leaf token s
      else if token.kind = .number || token.kind = .string then leaf token s
      else if token.isMark "(" then parenthesis maxDepth fuel token s
      else if startsNegative s.rest then
        match following with
        | number :: _ => negativeNumber token number s
        | [] => leaf token s
      else if isOperatorBox token then
        if token.text ≠ "!" && s.advance.atMark "(" then call maxDepth fuel token s.advance
        else leaf token s
      else (s.reportNext (.unexpectedToken token)).invalidBox token

/-- Reads an expression between parentheses, of which `opening` comes next. -/
def parenthesis (maxDepth : Int) : (fuel : Nat) → (opening : Token) → State → Box × State
  | 0, _, s => s.starve.invalidBox s.peek
  | fuel + 1, opening, s =>
    let (inner, s) := expression maxDepth fuel true s.advance
    if inner.invalid then (inner, s)
    else if s.atMark ")" then (inner, s.advance)
    else (s.reportNext (.unclosedParenthesis opening.start s.peek)).invalidBox s.peek

/-- Reads the arguments of a call of `name`; the opening parenthesis comes next. -/
def call (maxDepth : Int) : (fuel : Nat) → (name : Token) → State → Box × State
  | 0, _, s => s.starve.invalidBox s.peek
  | fuel + 1, name, s =>
    let opening := s.place s.peek
    let s := s.advance
    let mark := s.newMark name
    let s := s.count
    if s.atMark ")" then
      (.call { mark with invalid := true } name.text [],
        (s.reportNext (.emptyArguments name.text)).advance)
    else
      let (args, valid, s) := arguments maxDepth fuel name.text opening [] s
      (.call { mark with invalid := !valid } name.text args, s)

/-- Reads arguments up to the closing parenthesis; the flag tells whether all could be read. -/
def arguments (maxDepth : Int) :
    (fuel : Nat) → (name : String) → (opening : Position) → List Box → State → List Box × Bool × State
  | 0, _, _, args, s => (args, false, s.starve)
  | fuel + 1, name, opening, args, s =>
    let (argument, s) := expression maxDepth fuel false s
    let args := args ++ [argument]
    if argument.invalid then (args, false, s)
    else
      match s.rest with
      | [] => (args, false, s.reportNext (.malformedArguments name opening none))
      | token :: _ =>
        if token.isOperator "," then arguments maxDepth fuel name opening args s.advance
        else if token.isMark ")" then (args, true, s.advance)
        else (args, false, s.reportNext (.malformedArguments name opening (some token)))

/-- Reads the block of definitions that belongs to `body`; the keyword comes next. -/
def block (maxDepth : Int) : (fuel : Nat) → (keyword : Token) → Box → State → Box × State
  | 0, _, body, s => (body, s.starve)
  | fuel + 1, keyword, body, s =>
    let s := s.advance
    if !s.atMark "\x7b" then (s.reportNext (.missingBrace s.peek)).invalidBox s.peek
    else
      let opening := s.place s.peek
      let s := s.advance
      let mark := s.newMark keyword
      let (locals, s) := localDefinitions maxDepth fuel [] s.count
      if s.rest.isEmpty then
        (.block { mark with invalid := true } body locals, s.reportNext (.unclosedBrace opening))
      else (.block mark body locals, s.advance)

/-- Reads definitions up to the closing brace. -/
def localDefinitions (maxDepth : Int) :
    (fuel : Nat) → List Definition → State → List Definition × State
  | 0, locals, s => (locals, s.starve)
  | fuel + 1, locals, s =>
    match s.rest with
    | [] => (locals, s)
    | token :: _ =>
      if token.isMark "\x7d" then (locals, s)
      else
        let (new, s) := localRound maxDepth fuel token s
        localDefinitions maxDepth fuel (locals ++ new) s

/-- One round of reading local definitions: a definition, or a token that starts none. -/
def localRound (maxDepth : Int) : (fuel : Nat) → Token → State → List Definition × State
  | 0, _, s => ([], s.starve)
  | fuel + 1, token, s =>
    if token.kind = .identifier then
      let (d, s) := definition maxDepth fuel token s
      ([d], s)
    else ([], (s.report token.start (.unexpectedLocal token)).recover)

/-- Reads a definition of the name that comes next. -/
def definition (maxDepth : Int) : (fuel : Nat) → (name : Token) → State → Definition × State
  | 0, name, s => (⟨{ s.newMark name with invalid := true }, name.text, [], none, ⟨0, 0⟩⟩, s.starve.count)
  | fuel + 1, name, s =>
    let s := s.advance
    let mark := s.newMark name
    let (params, readable, s) := parameters s.count
    if !readable then
      (⟨{ mark with invalid := true }, name.text, params, none, ⟨0, 0⟩⟩, s.recover)
    else if !s.peek.any (·.isOperator "=") then
      (⟨{ mark with invalid := true }, name.text, params, none, ⟨0, 0⟩⟩,
        (s.reportNext (.missingEquals name.text s.peek)).recover)
    else
      let (body, s) := expression maxDepth fuel true s.advance
      let (ended, s) :=
        if body.invalid then (false, s.recover)
        else endStatement ("definition of '" ++ name.text ++ "'") s
      (⟨{ mark with invalid := !ended }, name.text, params, some body, s.place none⟩, s)

end

/-! ## Statements -/

/-- Fuel for reading a statement: a function that consumes nothing calls at most nine others before one
of them consumes a token. -/
def fuelFor (s : State) : Nat := 10 * (s.rest.length + 1)

/-- One round of reading a program: a statement, or a token that starts none. -/
def round (maxDepth : Int) (token : Token) (p : Program) (s : State) : Program × State :=
  if token.isKeyword "import" then
    let (statement, s) := importStatement s
    ({ p with imports := p.imports ++ statement.toList }, s)
  else if token.isKeyword "declare" then
    let (statement, s) := declareStatement s
    ({ p with declarations := p.declarations ++ statement.toList }, s)
  else if token.kind = .identifier then
    let (d, s') := definition maxDepth (fuelFor s) token s
    ({ p with definitions := p.definitions ++ [d] }, s')
  else if token.isMark "\x7d" then (p, (s.report token.start .unmatchedBrace).advance)
  else (p, (s.report token.start (.unexpectedStatement token)).recover)

/-- Reads statements until no token is left. Every round takes at least one. -/
def statements (maxDepth : Int) : (fuel : Nat) → Program → State → Program × State
  | 0, p, s => (p, s)
  | fuel + 1, p, s =>
    match s.rest with
    | [] => (p, s)
    | token :: _ =>
      let (p, s) := round maxDepth token p s
      statements maxDepth fuel p s

/-- Reads all tokens. -/
def run (maxDepth : Int) (tokens : List Token) : Program × State :=
  statements maxDepth tokens.length .empty (.start tokens)

end Patchbay.Parser

namespace Patchbay

/-- How deep expressions may be nested unless told otherwise. -/
def defaultDepth : Int := 100

/-- The program that the tokens write, with the findings of reading it. A hexadecimal number too large
for a double stops the reading. -/
def Program.parse (tokens : List Token) (maxDepth : Int) : Except Fault (Program × List Finding) :=
  let (program, s) := Parser.run maxDepth tokens
  if s.oversized then .error .oversizedNumber else .ok (program, s.findings)

/-- The program of a text, with the findings of cutting it into tokens and of reading these. -/
def Program.read (text : String) (maxDepth : Int) : Except Fault (Program × List Finding) :=
  let (tokens, lexical) := scan text
  (Program.parse tokens maxDepth).map fun (program, findings) => (program, lexical ++ findings)

end Patchbay
