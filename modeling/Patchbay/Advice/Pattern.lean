import Patchbay.Text.Search

/-!
# Patterns in messages

A pattern is found in a text at the first place where one of its alternatives matches; parts of the match
may have names. A run of characters up to a stop is always taken whole, which is enough as long as the
stop comes next in the pattern.
-/

namespace Patchbay

/-- A part of a pattern. -/
inductive PatternPiece where
  /-- These characters. -/
  | exact (text : String)
  /-- At least one character, all up to the next `stop`. -/
  | upTo (name : String) (stop : Char)
  /-- One character that is no line feed. -/
  | character (name : String)
  /-- At least one character up to the end of the text or to a line feed that ends it. -/
  | lastLine (name : String)
deriving DecidableEq, Repr, Inhabited

/-- What is looked for in a message. -/
structure Pattern where
  /-- Whether it must stand at the start of the text. -/
  anchored : Bool
  alternatives : List (List PatternPiece)
deriving DecidableEq, Repr, Inhabited

namespace Pattern

/-- The pattern of a text found anywhere. -/
def ofExact (text : String) : Pattern := ⟨false, [[.exact text]]⟩

/-- The pattern of a text at the start. -/
def atStart (text : String) : Pattern := ⟨true, [[.exact text]]⟩

/-- The pattern of pieces found anywhere, one after another. -/
def ofPieces (pieces : List PatternPiece) : Pattern := ⟨false, [pieces]⟩

/-- Matches pieces at the start of a text; gives the named parts. -/
def matchPieces : List PatternPiece → List Char → Option (List (String × String))
  | [], _ => some []
  | .exact text :: pieces, cs =>
    match Text.dropStart? (· == ·) text.toList cs with
    | some rest => matchPieces pieces rest
    | none => none
  | .upTo name stop :: pieces, cs =>
    match cs.takeWhile (· ≠ stop) with
    | [] => none
    | run => (matchPieces pieces (cs.dropWhile (· ≠ stop))).map ((name, String.ofList run) :: ·)
  | .character name :: pieces, cs =>
    match cs with
    | [] => none
    | c :: rest =>
      if c = '\n' then none else (matchPieces pieces rest).map ((name, c.toString) :: ·)
  | .lastLine name :: pieces, cs =>
    match cs.takeWhile (· ≠ '\n'), cs.dropWhile (· ≠ '\n') with
    | [], _ => none
    | run, [] => (matchPieces pieces []).map ((name, String.ofList run) :: ·)
    | run, ['\n'] => (matchPieces pieces []).map ((name, String.ofList run) :: ·)
    | _, _ => none

/-- Matches the first alternative that fits at the start of a text. -/
def matchHere (p : Pattern) (cs : List Char) : Option (List (String × String)) :=
  p.alternatives.findSome? fun pieces => matchPieces pieces cs

/-- Matches at the first place that fits. -/
def searchFrom (p : Pattern) : List Char → Option (List (String × String))
  | [] => p.matchHere []
  | c :: cs =>
    match p.matchHere (c :: cs) with
    | some parts => some parts
    | none => searchFrom p cs

/-- The named parts of the first match in a text. -/
def find? (p : Pattern) (text : String) : Option (List (String × String)) :=
  if p.anchored then p.matchHere text.toList else p.searchFrom text.toList

/-! ## Patterns written by callers -/

/-- Reads `name>[^c]+)` after the opening of a named run. -/
def readRun (cs : List Char) : Option (PatternPiece × List Char) :=
  let name := cs.takeWhile (· ≠ '>')
  match cs.dropWhile (· ≠ '>') with
  | '>' :: '[' :: '^' :: stop :: ']' :: '+' :: ')' :: rest => some (.upTo (String.ofList name) stop, rest)
  | _ => none

/-- The pieces of a written pattern: plain text and named runs `(?P<name>[^c]+)`. Each step takes a
character, so the length is fuel enough. -/
def piecesFrom : (fuel : Nat) → (plain : List Char) → List Char → List PatternPiece
  | 0, plain, _ => [.exact (String.ofList plain.reverse)]
  | _ + 1, plain, [] => [.exact (String.ofList plain.reverse)]
  | fuel + 1, plain, '(' :: '?' :: 'P' :: '<' :: cs =>
    match readRun cs with
    | some (piece, rest) => .exact (String.ofList plain.reverse) :: piece :: piecesFrom fuel [] rest
    | none => piecesFrom fuel ('<' :: 'P' :: '?' :: '(' :: plain) cs
  | fuel + 1, plain, c :: cs => piecesFrom fuel (c :: plain) cs

/-- The pattern that a caller writes. -/
def ofText (text : String) : Pattern := ofPieces (piecesFrom (text.length + 1) [] text.toList)

end Pattern

end Patchbay
