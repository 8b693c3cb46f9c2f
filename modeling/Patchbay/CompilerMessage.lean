import Patchbay.Diagnostic
import Patchbay.Fault
import Patchbay.Number.Reading
import Patchbay.Text.Lines
import Patchbay.Text.Search

/-!
# Messages of a compiler

Each line of a compiler's output is a message if it has one of four forms, tried in this order:

* `error : file : line : message`,
* `file:line: message`,
* `error : message`,
* `warning : message`.

Other lines are left out. If no line is a message, the whole text is one.
-/

namespace Patchbay

/-- A message of a compiler. -/
structure CompilerMessage where
  severity : Severity
  message : String
  /-- The line it was read from. -/
  raw : String
  file : Option String
  line : Option Nat
deriving DecidableEq, Repr, Inhabited

namespace CompilerMessage

/-- The place and the text of a message: file, digits of the line number, message. -/
abbrev Located := List Char × List Char × List Char

/-- The text before the first colon and what follows it. -/
def splitColon (cs : List Char) : Option (List Char × List Char) :=
  match cs.dropWhile (· ≠ ':') with
  | [] => none
  | _ :: rest => some (cs.takeWhile (· ≠ ':'), rest)

/-- What follows a word, blanks and a colon, for each place where these stand. -/
def afterHead (word : String) (cs : List Char) : List (List Char) :=
  (Text.afterWord word.toList cs).filterMap fun rest =>
    match rest.dropWhile Text.isBlank with
    | ':' :: rest => some rest
    | _ => none

/-- Reads `file:line:message`, with no part empty; `clean` is applied to the line number before it is
taken for one. -/
def readLocated (clean : List Char → List Char) (cs : List Char) : Option Located :=
  match splitColon cs with
  | none => none
  | some (file, rest) =>
    match splitColon rest with
    | none => none
    | some (number, message) =>
      let digits := clean number
      if file.isEmpty || digits.isEmpty || !digits.all Text.isDigit || message.isEmpty then none
      else some (file, digits, message)

/-- Reads `file:line:message` at the first place between colons where it stands. Each step drops a
colon, so the length is fuel enough. -/
def readBare : (fuel : Nat) → List Char → Option Located
  | 0, _ => none
  | fuel + 1, cs =>
    match readLocated (fun number => number) cs with
    | some located => some located
    | none =>
      match splitColon cs with
      | some (_, rest) => readBare fuel rest
      | none => none

/-- Reads a message after a word and a colon. -/
def readHeaded (word : String) (cs : List Char) : Option (List Char) :=
  (afterHead word cs).find? fun rest => !rest.isEmpty

/-- Text without the blanks at its ends. -/
def clean (cs : List Char) : String := String.ofList (Text.trim cs)

/-- The message with a place. -/
def ofLocated (raw : List Char) : Located → Except Fault CompilerMessage
  | (file, digits, message) =>
    if digits.length > Number.digitLimit then .error .tooManyDigits
    else
      .ok ⟨.error, clean message, String.ofList raw, some (clean file),
        some (Text.decimalValue digits)⟩

/-- The message of a line that has no blanks at its ends, if it is one. -/
def ofLine (line : List Char) : Except Fault (Option CompilerMessage) :=
  let headed := (afterHead "error" line).findSome? (readLocated Text.trim)
  match headed.or (readBare (line.length + 1) line) with
  | some located => (ofLocated line located).map some
  | none =>
    match readHeaded "error" line, readHeaded "warning" line with
    | some message, _ => .ok (some ⟨.error, clean message, String.ofList line, none, none⟩)
    | none, some message => .ok (some ⟨.warning, clean message, String.ofList line, none, none⟩)
    | none, none => .ok none

/-- The messages of lines. -/
def ofLines : List String → Except Fault (List CompilerMessage)
  | [] => .ok []
  | line :: lines => do
    let message ← ofLine (Text.trim line.toList)
    let messages ← ofLines lines
    return message.toList ++ messages

/-- The messages of a compiler's output. -/
def readAll (text : String) : Except Fault (List CompilerMessage) := do
  let messages ← ofLines (Text.lines text)
  let whole := Text.trimmed text
  if messages.isEmpty && whole ≠ "" then return [⟨.error, whole, whole, none, none⟩]
  else return messages

end CompilerMessage

end Patchbay
