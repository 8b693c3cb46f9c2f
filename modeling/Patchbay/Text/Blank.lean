import Patchbay.Text.Ranges

/-!
# Blank characters and trimming

Whitespace of every script (Unicode 14). Trimming removes it at both ends and nowhere else.
-/

namespace Patchbay.Text

/-- Blank characters. -/
def blankRanges : List (Nat × Nat) :=
  [(0x9, 0xd), (0x1c, 0x20), (0x85, 0x85), (0xa0, 0xa0), (0x1680, 0x1680), (0x2000, 0x200a),
   (0x2028, 0x2029), (0x202f, 0x202f), (0x205f, 0x205f), (0x3000, 0x3000)]

/-- Whitespace of every script. -/
def isBlank (c : Char) : Bool := inRanges blankRanges c

/-- Blank characters other than the four that separate records of data. -/
def isSpace (c : Char) : Bool := isBlank c && (c.toNat < 0x1c || 0x1f < c.toNat)

/-- Removes characters of a kind at both ends. -/
def trimWhere (drops : Char → Bool) (cs : List Char) : List Char :=
  ((cs.dropWhile drops).reverse.dropWhile drops).reverse

/-- Removes blank characters at both ends. -/
def trim (cs : List Char) : List Char := trimWhere isBlank cs

/-- Puts a character in front of words; a blank one starts a new word. -/
def consWord (c : Char) (words : List (List Char)) : List (List Char) :=
  match words with
  | word :: rest => if isBlank c then [] :: word :: rest else (c :: word) :: rest
  | [] => if isBlank c then [] else [[c]]

/-- The words of a text: its longest parts without blank characters. -/
def words (cs : List Char) : List (List Char) := (cs.foldr consWord []).filter fun word => !word.isEmpty

/-- The words of a text as texts. -/
def wordsOf (text : String) : List String := (words text.toList).map String.ofList

/-- A text without the blank characters at its ends. -/
def trimmed (text : String) : String := String.ofList (trim text.toList)

end Patchbay.Text
