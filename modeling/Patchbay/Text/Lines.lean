/-!
# Lines of a text

A line ends at a line feed, a carriage return, both together, a vertical tab, a form feed, one of the
three information separators, a next-line control, or one of the two Unicode separators. Nothing after
the last line end is no line.
-/

namespace Patchbay.Text

/-- Characters that end a line. -/
def isLineEnd (c : Char) : Bool :=
  c == '\n' || c == '\r' || c == '\x0b' || c == '\x0c' || c == '\x1c' || c == '\x1d' || c == '\x1e'
    || c == '\u0085' || c == '\u2028' || c == '\u2029'

/-- The lines of `cs`, where `line` holds the characters of the first one read so far, last first. -/
def linesFrom (line : List Char) : List Char → List (List Char)
  | [] => if line.isEmpty then [] else [line.reverse]
  | '\r' :: '\n' :: cs => line.reverse :: linesFrom [] cs
  | c :: cs => if isLineEnd c then line.reverse :: linesFrom [] cs else linesFrom (c :: line) cs

/-- The lines of a text, without their ends. -/
def lines (text : String) : List String := (linesFrom [] text.toList).map String.ofList

/-- Every line end written as carriage return, or as carriage return and line feed, becomes a line feed. -/
def plainNewlines : List Char → List Char
  | [] => []
  | '\r' :: '\n' :: cs => '\n' :: plainNewlines cs
  | c :: cs => (if c == '\r' then '\n' else c) :: plainNewlines cs

end Patchbay.Text
