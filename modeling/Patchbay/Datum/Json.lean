import Patchbay.Datum
import Patchbay.Number.Reading
import Patchbay.Number.Writing
import Patchbay.Table

/-!
# JSON documents

Free data written as JSON, on one line or with two blanks of indentation per level, and read back. A
number with a fraction or an exponent is a float, any other a whole number; of two fields with one name
the later value counts, in the place of the earlier. JSON has no infinities: they are written as null.
-/

namespace Patchbay.Json

open Patchbay.Text

/-! ## Writing -/

/-- A character inside a JSON string. -/
def escapedChar (c : Char) : List Char :=
  if c == '"' then ['\\', '"']
  else if c == '\\' then ['\\', '\\']
  else if c == '\n' then ['\\', 'n']
  else if c == '\r' then ['\\', 'r']
  else if c == '\t' then ['\\', 't']
  else if c.toNat < 0x20 || c.toNat == 0x7f then ['\\', 'u'] ++ hexDigits 4 c.toNat
  else [c]

/-- A JSON string. -/
def quote (text : String) : String :=
  String.ofList ('"' :: (text.toList.flatMap escapedChar ++ ['"']))

/-- A JSON number; null for what is not finite. -/
def number (value : Binary64) : String :=
  if value.isFinite then Number.shortest value else "null"

mutual

/-- A document on one line. -/
def write : Datum → String
  | .null => "null"
  | .bool value => if value then "true" else "false"
  | .int value => toString value
  | .float value => number value
  | .text value => quote value
  | .list items => "[" ++ writeItems items ++ "]"
  | .record fields => "\x7b" ++ writeFields fields ++ "\x7d"

/-- The items of a list, separated by commas. -/
def writeItems : List Datum → String
  | [] => ""
  | [item] => write item
  | item :: items => write item ++ ", " ++ writeItems items

/-- The fields of a record, separated by commas. -/
def writeFields : List (String × Datum) → String
  | [] => ""
  | [(name, value)] => quote name ++ ": " ++ write value
  | (name, value) :: fields => quote name ++ ": " ++ write value ++ ", " ++ writeFields fields

end

/-- A new line with the indentation of a level. -/
def newLine (level : Nat) : String := "\n" ++ String.ofList (List.replicate (2 * level) ' ')

mutual

/-- A document over several lines, two blanks per level. -/
def indent (level : Nat) : Datum → String
  | .list [] => "[]"
  | .list (item :: items) =>
    "[" ++ newLine (level + 1) ++ indent (level + 1) item ++ indentItems (level + 1) items
      ++ newLine level ++ "]"
  | .record [] => "\x7b\x7d"
  | .record ((name, value) :: fields) =>
    "\x7b" ++ newLine (level + 1) ++ quote name ++ ": " ++ indent (level + 1) value
      ++ indentFields (level + 1) fields ++ newLine level ++ "\x7d"
  | .null => "null"
  | .bool value => if value then "true" else "false"
  | .int value => toString value
  | .float value => number value
  | .text value => quote value

/-- The items of a list after the first. -/
def indentItems (level : Nat) : List Datum → String
  | [] => ""
  | item :: items => "," ++ newLine level ++ indent level item ++ indentItems level items

/-- The fields of a record after the first. -/
def indentFields (level : Nat) : List (String × Datum) → String
  | [] => ""
  | (name, value) :: fields =>
    "," ++ newLine level ++ quote name ++ ": " ++ indent level value ++ indentFields level fields

end

/-! ## Reading -/

/-- Blanks between the parts of a document. -/
def isGap (c : Char) : Bool := c == ' ' || c == '\t' || c == '\n' || c == '\r'

/-- What follows the blanks. -/
def skipGap (cs : List Char) : List Char := cs.dropWhile isGap

/-- Four hexadecimal digits as a number, and the rest. -/
def readHex4 : List Char → Option (Nat × List Char)
  | a :: b :: c :: d :: cs =>
    if [a, b, c, d].all isHexDigit then some (hexValue [a, b, c, d], cs) else none
  | _ => none

/-- The character of an escape that is not a code point. -/
def plainEscape : Char → Option Char
  | '"' => some '"'
  | '\\' => some '\\'
  | '/' => some '/'
  | 'b' => some '\x08'
  | 'f' => some '\x0c'
  | 'n' => some '\n'
  | 'r' => some '\r'
  | 't' => some '\t'
  | _ => none

/-- Reads an escape by code point, two of them when the first is the high half of a pair. -/
def readCode (cs : List Char) : Option (Char × List Char) :=
  match readHex4 cs with
  | none => none
  | some (high, rest) =>
    if 0xd800 ≤ high && high < 0xdc00 then
      match rest with
      | '\\' :: 'u' :: rest' =>
        match readHex4 rest' with
        | some (low, rest'') =>
          some (Char.ofNat (0x10000 + (high - 0xd800) * 0x400 + (low - 0xdc00)), rest'')
        | none => none
      | _ => none
    else some (Char.ofNat high, rest)

/-- Reads the rest of a string after its opening quote; `done` holds the characters so far, last
first. Each step takes at least one character, so `fuel` may be the length of the text. -/
def readString : (fuel : Nat) → (done : List Char) → List Char → Option (String × List Char)
  | 0, _, _ => none
  | _ + 1, _, [] => none
  | fuel + 1, done, c :: cs =>
    if c == '"' then some (String.ofList done.reverse, cs)
    else if c == '\\' then
      match cs with
      | 'u' :: cs =>
        match readCode cs with
        | some (code, rest) => readString fuel (code :: done) rest
        | none => none
      | e :: cs =>
        match plainEscape e with
        | some plain => readString fuel (plain :: done) cs
        | none => none
      | [] => none
    else readString fuel (c :: done) cs

/-- Reads a number. -/
def readNumber (cs : List Char) : Option (Datum × List Char) :=
  let (negative, body) := match cs with
    | '-' :: cs => (true, cs)
    | cs => (false, cs)
  match Number.readNumeral body with
  | none => none
  | some (numeral, rest) =>
    let used := body.take (body.length - rest.length)
    if used.all isDigit then
      let value : Int := decimalValue used
      some (.int (if negative then -value else value), rest)
    else some (.float (numeral.value negative), rest)

mutual

/-- Reads a value at the start of the text. Every call takes a character or ends, so twice the length
of the text is fuel enough. -/
def readValue : (fuel : Nat) → List Char → Option (Datum × List Char)
  | 0, _ => none
  | fuel + 1, cs =>
    match skipGap cs with
    | 'n' :: 'u' :: 'l' :: 'l' :: rest => some (.null, rest)
    | 't' :: 'r' :: 'u' :: 'e' :: rest => some (.bool true, rest)
    | 'f' :: 'a' :: 'l' :: 's' :: 'e' :: rest => some (.bool false, rest)
    | '"' :: rest => (readString (rest.length + 1) [] rest).map fun (text, rest) => (.text text, rest)
    | '[' :: rest =>
      match skipGap rest with
      | ']' :: rest => some (.list [], rest)
      | rest => readItems fuel [] rest
    | '\x7b' :: rest =>
      match skipGap rest with
      | '\x7d' :: rest => some (.record [], rest)
      | rest => readFields fuel [] rest
    | rest => readNumber rest

/-- Reads the items of a list up to its closing bracket. -/
def readItems : (fuel : Nat) → (done : List Datum) → List Char → Option (Datum × List Char)
  | 0, _, _ => none
  | fuel + 1, done, cs =>
    match readValue fuel cs with
    | none => none
    | some (item, rest) =>
      match skipGap rest with
      | ',' :: rest => readItems fuel (item :: done) rest
      | ']' :: rest => some (.list (item :: done).reverse, rest)
      | _ => none

/-- Reads the fields of a record up to its closing brace. -/
def readFields : (fuel : Nat) → (done : List (String × Datum)) → List Char → Option (Datum × List Char)
  | 0, _, _ => none
  | fuel + 1, done, cs =>
    match skipGap cs with
    | '"' :: rest =>
      match readString (rest.length + 1) [] rest with
      | none => none
      | some (name, rest) =>
        match skipGap rest with
        | ':' :: rest =>
          match readValue fuel rest with
          | none => none
          | some (value, rest) =>
            match skipGap rest with
            | ',' :: rest => readFields fuel ((name, value) :: done) rest
            | '\x7d' :: rest => some (.record (Table.ofList ((name, value) :: done).reverse).entries, rest)
            | _ => none
        | _ => none
    | _ => none

end

/-- Reads one document at the start of the text, and gives what follows it. -/
def readFirst (cs : List Char) : Option (Datum × List Char) := readValue (2 * cs.length + 2) cs

/-- Reads a text that is one document. -/
def read? (text : String) : Option Datum :=
  match readFirst text.toList with
  | some (datum, rest) => if rest.all isGap then some datum else none
  | none => none

/-- Reads documents one after another as far as possible, and gives the rest. -/
def readAll : (fuel : Nat) → List Char → List Datum × List Char
  | 0, cs => ([], cs)
  | fuel + 1, cs =>
    match skipGap cs with
    | [] => ([], [])
    | rest =>
      match readFirst rest with
      | none => ([], rest)
      | some (datum, rest') =>
        let (data, left) := readAll fuel rest'
        (datum :: data, left)

end Patchbay.Json
