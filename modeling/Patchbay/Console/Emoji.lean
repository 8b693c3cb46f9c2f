import Patchbay.Console.EmojiNames
import Patchbay.Text.Case
import Patchbay.Text.Search

/-!
# Pictures in text for the console

A name between colons stands for a picture, as in `:link:`. The name may be followed by `-emoji` or `-text`,
which asks for the picture in colour or as plain text. What has no picture stays as it is.
-/

namespace Patchbay.Emoji

/-- A name after a colon, with what ends it. -/
structure Code where
  name : List Char
  /-- The closing colon, with the form that is asked for in front of it. -/
  ending : List Char
deriving DecidableEq, Repr, Inhabited

/-- What may end a code, with the character that chooses the form. -/
def endings : List (List Char × List Char) :=
  [("-emoji:".toList, ['\ufe0f']), ("-text:".toList, ['\ufe0e']), ([':'], [])]

/-- The ending that a text starts with. -/
def ending? (cs : List Char) : Option (List Char) :=
  (endings.find? fun e => (Text.dropStart? (· == ·) e.1 cs).isSome).map (·.1)

/-- Reads a code after its first colon, up to the nearest ending; no code has a blank in it. `name` holds
the name so far, last character first. -/
def readCode (name : List Char) : List Char → Option Code
  | [] => none
  | c :: cs =>
    match ending? (c :: cs) with
    | some ending => some ⟨name.reverse, ending⟩
    | none => if Text.isBlank c then none else readCode (c :: name) cs

namespace Code

/-- The text of a code after its first colon. -/
def text (c : Code) : List Char := c.name ++ c.ending

/-- The picture of a name, in whatever case it is written. -/
def picture? (c : Code) : Option String :=
  (pictures.find? fun p => p.1.toList == Text.lowered c.name).map (·.2)

/-- What a code shows: its picture in the form asked for, or itself. -/
def shown (c : Code) : List Char :=
  match c.picture? with
  | some picture => picture.toList ++ ((endings.find? fun e => e.1 == c.ending).map (·.2)).getD []
  | none => ':' :: c.text

end Code

/-- A text with pictures for codes; the first `skip` characters belong to a code before it. -/
def replaceFrom : (skip : Nat) → List Char → List Char
  | _, [] => []
  | skip + 1, _ :: cs => replaceFrom skip cs
  | 0, c :: cs =>
    match if c = ':' then readCode [] cs else none with
    | some code => code.shown ++ replaceFrom code.text.length cs
    | none => c :: replaceFrom 0 cs

/-- A text with pictures in the place of their codes. -/
def replace (cs : List Char) : List Char := replaceFrom 0 cs

end Patchbay.Emoji
