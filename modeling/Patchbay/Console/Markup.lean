import Patchbay.Console.Emoji
import Patchbay.Console.Literal
import Patchbay.Console.Style
import Patchbay.Text.Word

/-!
# Styles and pictures in text for the console

Text for the console may hold styles: `[red]` opens one, `[/red]` closes it and `[/]` closes the last one
that is open. A backslash keeps a style from being one. An action such as `[@click=f(1)]` is opened and
closed in the same way. On a plain console all of them are left out; still, closing what is not open is a
fault, and so is closing an action whose arguments are no values. Codes between styles become pictures.
-/

namespace Patchbay.Markup

/-- A part of text with styles. -/
inductive Part where
  | text (text : List Char)
  | style (style : List Char)
deriving DecidableEq, Repr, Inhabited

/-! ## Reading -/

/-- Characters that a style may start with. -/
def startsStyle (c : Char) : Bool := ('a' ≤ c && c ≤ 'z') || c == '#' || c == '/' || c == '@'

/-- Reads a style after its opening bracket. -/
def readStyle : List Char → Option (List Char × List Char)
  | [] => none
  | c :: cs =>
    let body := cs.takeWhile fun c => c ≠ ']' && c ≠ '['
    match cs.dropWhile fun c => c ≠ ']' && c ≠ '[' with
    | ']' :: rest => if startsStyle c then some (c :: body, rest) else none
    | _ => none

/-- A number of backslashes. -/
def slashes (count : Nat) : List Char := List.replicate count '\\'

/-- The parts of a text; `plain` holds the text so far, last character first, and `pending` counts the
backslashes just before. Two backslashes before a style are one, and a single one keeps it as text. Each
step takes a character, so the length is fuel enough. -/
def partsFrom : (fuel : Nat) → (plain : List Char) → (pending : Nat) → List Char → List Part
  | 0, _, _, _ => []
  | _ + 1, plain, pending, [] => [.text (plain.reverse ++ slashes pending)]
  | fuel + 1, plain, pending, c :: cs =>
    if c = '\\' then partsFrom fuel plain (pending + 1) cs
    else if c = '[' then
      match readStyle cs with
      | none => partsFrom fuel ('[' :: slashes (pending - 1) ++ plain) 0 cs
      | some (style, rest) =>
        .text plain.reverse :: .text (slashes (pending / 2)) ::
          (if pending % 2 = 1 then .text ('[' :: style ++ [']']) else .style style) :: partsFrom fuel [] 0 rest
    else partsFrom fuel (c :: slashes pending ++ plain) 0 cs

/-- The parts of a text. -/
def parts (cs : List Char) : List Part := partsFrom (cs.length + 1) [] 0 cs

/-! ## Tags -/

/-- An open style or action, with what follows an equals sign in it. -/
structure Tag where
  name : String
  parameter : Option (List Char)
deriving DecidableEq, Repr, Inhabited

namespace Tag

/-- The tag that a text opens. -/
def ofText (cs : List Char) : Except Fault Tag :=
  (Style.nameOf (cs.takeWhile (· ≠ '='))).map fun name =>
    ⟨name, if cs.contains '=' then some ((cs.dropWhile (· ≠ '=')).drop 1) else none⟩

/-- Whether a tag is an action. -/
def isAction (t : Tag) : Bool := t.name.startsWith "@"

/-- The text of the style that a tag gives to what it encloses. -/
def styleText (t : Tag) : List Char :=
  match t.parameter with
  | some parameter => t.name.toList ++ ' ' :: parameter
  | none => t.name.toList

end Tag

/-- The arguments of an action: those of a call, of which the name does not matter, or the text itself. -/
def argumentsText (cs : List Char) : List Char :=
  match cs.dropWhile fun c => Text.isWord c || c == '.' with
  | [] => "()".toList
  | rest =>
    if rest.head? = some '(' && rest.length ≠ 1 && rest.getLast? = some ')' && !rest.contains '\n' then rest
    else cs

/-- Whether the parameter of an action can be understood. -/
def isActionParameter (parameter : Option (List Char)) : Bool :=
  match parameter with
  | none | some [] => true
  | some cs => Literal.isLiteral (argumentsText (Text.trim cs))

/-! ## Showing -/

/-- Closes the last open tag with a name. -/
def close (name : String) : List Tag → Option (Tag × List Tag)
  | [] => none
  | tag :: opened =>
    if tag.name = name then some (tag, opened)
    else (close name opened).map fun (found, opened) => (found, tag :: opened)

/-- The tag that a closing style closes, and those that stay open. -/
def closed? (opened : List Tag) (name : List Char) : Except Fault (Tag × List Tag) := do
  match Text.trim name, opened with
  | [], [] => .error .malformedMarkup
  | [], tag :: opened => return (tag, opened)
  | name, opened =>
    match close (← Style.nameOf name) opened with
    | some result => return result
    | none => .error .malformedMarkup

/-- The text of parts without styles, and the tags whose styles are shown; `opened` holds the open tags,
the last one first. -/
def textOf : (opened : List Tag) → List Part → Except Fault (List Char × List Tag)
  | opened, [] => .ok ([], opened)
  | opened, .text text :: parts =>
    (textOf opened parts).map fun (rest, tags) => (Emoji.replace text ++ rest, tags)
  | opened, .style style :: parts =>
    match style.takeWhile (· ≠ '=') with
    | '/' :: name => do
      let (tag, opened) ← closed? opened name
      if !tag.isAction then (textOf opened parts).map fun (text, tags) => (text, tag :: tags)
      else if isActionParameter tag.parameter then textOf opened parts
      else .error .malformedMarkup
    | _ => do
      let tag ← Tag.ofText style
      textOf (tag :: opened) parts

/-- Looks at the styles of tags, of which nothing is shown; only a malformed colour matters. -/
def checkStyles : List Tag → Except Fault Unit
  | [] => .ok ()
  | tag :: tags => do
    let _ ← Style.read tag.styleText
    checkStyles tags

/-- Control characters that a console does not show. -/
def hidden : List Char := ['\x07', '\x08', '\x0b', '\x0c', '\r']

/-- Text as a console shows it: without hidden characters, and with a tab as a blank. -/
def shown (cs : List Char) : List Char :=
  (cs.filter fun c => !hidden.contains c).map fun c => if c = '\t' then ' ' else c

/-- A text with styles as a plain console shows it. -/
def plain (text : String) : Except Fault String := do
  let (cs, tags) ← textOf [] (parts text.toList)
  checkStyles tags
  return String.ofList (shown cs)

/-- A text without styles as a console shows it. -/
def verbatim (text : String) : String := String.ofList (shown (Emoji.replace text.toList))

end Patchbay.Markup
