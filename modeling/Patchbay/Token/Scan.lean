import Patchbay.Issue

/-!
# Cutting a text into tokens

`lexeme` says what stands at the start of a text and how long it is: comments are tried first, then
operators, then words, numbers, strings, punctuation and blanks; a character that starts none of these
is bad and stands alone. `segments` cuts a whole text in this way, so the segments put together are the
text again. `scan` reads tokens and findings off the segments.
-/

namespace Patchbay

/-- What a piece of the text is. -/
inductive Lexeme where
  | blank
  | lineComment
  | blockComment (closed : Bool)
  | token (kind : TokenKind)
  | bad
deriving DecidableEq, Repr, Inhabited

/-- A piece of the text. -/
structure Segment where
  lexeme : Lexeme
  text : List Char
deriving DecidableEq, Repr, Inhabited

namespace Scan

/-! ## Lengths of the classes -/

/-- Blanks between tokens. -/
def isGap (c : Char) : Bool := c == ' ' || c == '\t' || c == '\x0c' || c == '\r' || c == '\n'

/-- Characters that start a name. -/
def isNameStart (c : Char) : Bool :=
  ('a' ≤ c && c ≤ 'z') || ('A' ≤ c && c ≤ 'Z') || c == '_'

/-- Characters that continue a name. -/
def isNamePart (c : Char) : Bool := isNameStart c || ('0' ≤ c && c ≤ '9')

/-- How far a name goes on; a point continues it when another name follows. -/
def nameLength : List Char → Nat
  | '.' :: c :: cs => if isNameStart c then nameLength cs + 2 else 0
  | c :: cs => if isNamePart c then nameLength cs + 1 else 0
  | [] => 0

/-- How far a string goes on after its opening quote; none if it does not end. A backslash takes the
next character with it, except a line feed. -/
def stringLength : List Char → Option Nat
  | [] => none
  | '"' :: _ => some 1
  | '\\' :: c :: cs => if c = '\n' then none else (stringLength cs).map (· + 2)
  | ['\\'] => none
  | _ :: cs => (stringLength cs).map (· + 1)

/-- How far a block comment goes on after its opening, and whether it ends. -/
def commentLength : List Char → Nat × Bool
  | [] => (0, false)
  | '*' :: '/' :: _ => (2, true)
  | _ :: cs =>
    let (length, closed) := commentLength cs
    (length + 1, closed)

/-- Operators of two characters. -/
def isDigraph (a b : Char) : Bool :=
  [('<', ':'), (':', '>'), ('<', '='), ('>', '='), ('=', '='), ('!', '='), ('<', '<'), ('>', '>')].contains
    (a, b)

/-- Operators of one character. -/
def isMonograph (c : Char) : Bool :=
  [':', ',', '~', '+', '-', '*', '/', '%', '@', '!', '\'', '=', '<', '>', '^', '&', '|'].contains c

/-- The length of the operator at the start of a text; zero if there is none. -/
def operatorLength : List Char → Nat
  | a :: b :: _ => if isDigraph a b then 2 else if isMonograph a then 1 else 0
  | [a] => if isMonograph a then 1 else 0
  | [] => 0

/-- The length of the number at the start of a text; zero if there is none. -/
def numberLength (cs : List Char) : Nat :=
  let decimal := match Number.readNumeral cs with
    | some (_, rest) => cs.length - rest.length
    | none => 0
  match cs with
  | '0' :: x :: digits =>
    let hex := digits.takeWhile Text.isHexDigit
    if (x == 'x' || x == 'X') && !hex.isEmpty then hex.length + 2 else decimal
  | _ => decimal

/-- Punctuation marks. -/
def isPunctuation (c : Char) : Bool := ['(', ')', '\x7b', '\x7d', ';'].contains c

/-- Words with a meaning of their own. -/
def keywords : List String := ["import", "with", "declare"]

/-! ## Segments -/

/-- What starts with `c` and goes on with `cs`, when it is neither a comment nor an operator. -/
def plainLexeme (c : Char) (cs : List Char) : Lexeme × Nat :=
  if isNameStart c then
    let length := nameLength cs + 1
    let word := String.ofList ((c :: cs).take length)
    (.token (if keywords.contains word then .keyword else .identifier), length)
  else if 0 < numberLength (c :: cs) then (.token .number, numberLength (c :: cs))
  else if c = '"' then
    match stringLength cs with
    | some length => (.token .string, length + 1)
    | none => (.bad, 1)
  else if isPunctuation c then (.token .punctuation, 1)
  else if isGap c then (.blank, (cs.takeWhile isGap).length + 1)
  else (.bad, 1)

/-- What starts with `c` and goes on with `cs`, and its length. -/
def lexeme (c : Char) (cs : List Char) : Lexeme × Nat :=
  match c, cs with
  | '/', '/' :: rest => (.lineComment, (rest.takeWhile (· ≠ '\n')).length + 2)
  | '/', '*' :: rest =>
    let (length, closed) := commentLength rest
    (.blockComment closed, length + 2)
  | _, _ =>
    let length := operatorLength (c :: cs)
    if 0 < length then (.token .operator, length) else plainLexeme c cs

/-- The segments of a text after the next `skip` characters, which belong to the segment before. -/
def segmentsFrom : (skip : Nat) → List Char → List Segment
  | _, [] => []
  | skip + 1, _ :: cs => segmentsFrom skip cs
  | 0, c :: cs =>
    let (kind, length) := lexeme c cs
    ⟨kind, (c :: cs).take length⟩ :: segmentsFrom (length - 1) cs

/-- The segments of a text. -/
def segments (text : List Char) : List Segment := segmentsFrom 0 text

/-! ## Tokens and findings -/

/-- The tokens of segments that start at `p`. -/
def tokensFrom (p : Position) : List Segment → List Token
  | [] => []
  | ⟨.token kind, text⟩ :: rest =>
    ⟨kind, String.ofList text, p, p.after text⟩ :: tokensFrom (p.after text) rest
  | ⟨_, text⟩ :: rest => tokensFrom (p.after text) rest

/-- What a bad character is called. A quote is bad only when its string does not end. -/
def badCharacter (c : Char) : Issue := if c = '"' then .unterminatedString else .unexpectedCharacter c

/-- The issue of a segment, if it is bad or a comment that does not end. -/
def segmentIssue : Segment → Option Issue
  | ⟨.bad, c :: _⟩ => some (badCharacter c)
  | ⟨.blockComment false, _⟩ => some .unterminatedComment
  | _ => none

/-- The findings of segments that start at `p`. -/
def findingsFrom (p : Position) : List Segment → List Finding
  | [] => []
  | s :: rest =>
    match segmentIssue s with
    | some issue => ⟨p, issue⟩ :: findingsFrom (p.after s.text) rest
    | none => findingsFrom (p.after s.text) rest

end Scan

/-- The tokens of a text, and the findings of cutting it. -/
def scan (text : String) : List Token × List Finding :=
  let segments := Scan.segments text.toList
  (Scan.tokensFrom .start segments, Scan.findingsFrom .start segments)

end Patchbay
