import Patchbay.Position

/-!
# Tokens

A token is a piece of program text with its kind and the places where it starts and ends.
-/

namespace Patchbay

/-- What a token is. -/
inductive TokenKind where
  | keyword
  | identifier
  | number
  | string
  | operator
  | punctuation
deriving DecidableEq, Repr, Inhabited

/-- The name of a kind of token. -/
def TokenKind.name : TokenKind → String
  | .keyword => "keyword"
  | .identifier => "identifier"
  | .number => "number"
  | .string => "string"
  | .operator => "operator"
  | .punctuation => "punctuation"

/-- A piece of program text. -/
structure Token where
  kind : TokenKind
  text : String
  start : Position
  stop : Position
deriving DecidableEq, Repr, Inhabited

namespace Token

/-- Whether the token is this operator. -/
def isOperator (t : Token) (text : String) : Bool := t.kind == .operator && t.text == text

/-- Whether the token is this punctuation mark. -/
def isMark (t : Token) (text : String) : Bool := t.kind == .punctuation && t.text == text

/-- Whether the token is this keyword. -/
def isKeyword (t : Token) (text : String) : Bool := t.kind == .keyword && t.text == text

/-- A token as messages call it; without one the text has ended. -/
def describe : Option Token → String
  | none => "end of input"
  | some t => if t.kind = .string then "string " ++ t.text else "'" ++ t.text ++ "'"

end Token

end Patchbay
