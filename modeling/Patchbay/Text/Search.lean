/-!
# Searching in text

Words are found as they are, or in whatever case they are written. Beside a letter and its capital, some
letters have further forms: the dotted and the dotless i, the long s and the Kelvin sign.
-/

namespace Patchbay.Text

/-- What follows `start` in a text that starts with it, where `same` compares characters. -/
def dropStart? (same : Char → Char → Bool) : (start : List Char) → List Char → Option (List Char)
  | [], cs => some cs
  | _ :: _, [] => none
  | s :: start, c :: cs => if same s c then dropStart? same start cs else none

/-- Whether a text has a word in it. -/
def includes (word : List Char) : List Char → Bool
  | [] => word.isEmpty
  | c :: cs => (dropStart? (· == ·) word (c :: cs)).isSome || includes word cs

/-- Whether `c` is a form of the lower-case letter. -/
def sameLetter (lower c : Char) : Bool :=
  c.toLower == lower || (lower == 'i' && (c == '\u0130' || c == '\u0131'))
    || (lower == 's' && c == '\u017f') || (lower == 'k' && c == '\u212a')

/-- What follows each place where a lower-case word stands in some case, from left to right. -/
def afterWord (word : List Char) : List Char → List (List Char)
  | [] => []
  | c :: cs => (dropStart? sameLetter word (c :: cs)).toList ++ afterWord word cs

end Patchbay.Text
