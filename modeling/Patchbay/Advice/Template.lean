import Patchbay.Advice.Format

/-!
# Templates of advice

A template is text with fields in braces; a doubled brace stands for one. A field names a value, and may go
on to a part of it, ask for it in quotes, and give a format, which may have fields of its own. A field that
has no value is shown as it is written. A brace that stands alone makes the template malformed.

The parts of a template are taken in order, so the first fault is the one that counts.
-/

namespace Patchbay

/-- A field of a template. -/
structure TemplateField where
  /-- What it shows: a name, and the way to a part of the value. -/
  path : List Char
  /-- How the value becomes text before it is formatted. -/
  conversion : Option Char
  format : List Char
deriving DecidableEq, Repr, Inhabited

/-- A part of a template. -/
inductive TemplatePart where
  | text (text : String)
  | field (field : TemplateField)
  /-- Where the template stops making sense. -/
  | malformed
deriving DecidableEq, Repr, Inhabited

namespace Template

/-! ## Reading -/

/-- The path of a field and what follows it; nothing inside square brackets ends a path. -/
def pathFrom : (bracketed : Bool) → List Char → List Char × List Char
  | _, [] => ([], [])
  | true, c :: cs =>
    let (path, rest) := pathFrom (c ≠ ']') cs
    (c :: path, rest)
  | false, c :: cs =>
    if c = '\x7b' || c = '\x7d' || c = ':' || c = '!' then ([], c :: cs)
    else
      let (path, rest) := pathFrom (c = '[') cs
      (c :: path, rest)

/-- The format of a field and what follows its closing brace; braces inside it come in pairs. -/
def formatFrom : (depth : Nat) → List Char → Option (List Char × List Char)
  | _, [] => none
  | depth, c :: cs =>
    if c = '\x7b' then (formatFrom (depth + 1) cs).map fun (format, rest) => (c :: format, rest)
    else if c = '\x7d' then
      match depth with
      | 0 => some ([], cs)
      | depth + 1 => (formatFrom depth cs).map fun (format, rest) => (c :: format, rest)
    else (formatFrom depth cs).map fun (format, rest) => (c :: format, rest)

/-- Reads a field behind its opening brace. -/
def readField (cs : List Char) : Option (TemplateField × List Char) :=
  match pathFrom false cs with
  | (path, '\x7d' :: rest) => some (⟨path, none, []⟩, rest)
  | (path, ':' :: cs) => (formatFrom 0 cs).map fun (format, rest) => (⟨path, none, format⟩, rest)
  | (path, '!' :: c :: '\x7d' :: rest) => some (⟨path, some c, []⟩, rest)
  | (path, '!' :: c :: ':' :: cs) =>
    (formatFrom 0 cs).map fun (format, rest) => (⟨path, some c, format⟩, rest)
  | _ => none

/-- The parts of a template; `plain` is the text before them, last character first. -/
def partsFrom : (fuel : Nat) → (plain : List Char) → List Char → List TemplatePart
  | 0, _, _ => [.malformed]
  | _ + 1, plain, [] => [.text (String.ofList plain.reverse)]
  | fuel + 1, plain, '\x7b' :: '\x7b' :: cs => partsFrom fuel ('\x7b' :: plain) cs
  | fuel + 1, plain, '\x7d' :: '\x7d' :: cs => partsFrom fuel ('\x7d' :: plain) cs
  | fuel + 1, plain, c :: cs =>
    if c = '\x7b' then
      match readField cs with
      | some (field, rest) =>
        .text (String.ofList plain.reverse) :: .field field :: partsFrom fuel [] rest
      | none => [.malformed]
    else if c = '\x7d' then [.malformed]
    else partsFrom fuel (c :: plain) cs

/-- The parts of a template. -/
def parts (template : List Char) : List TemplatePart := partsFrom (template.length + 1) [] template

/-! ## Values -/

/-- A named part of a number. -/
def numberPart? (datum : Datum) (name : String) : Option Datum :=
  let ofWhole (n : Int) : Option Datum :=
    if name = "real" || name = "numerator" then some (.int n)
    else if name = "imag" then some (.int 0)
    else if name = "denominator" then some (.int 1)
    else none
  match datum with
  | .int n => ofWhole n
  | .bool b => ofWhole (if b then 1 else 0)
  | .float value =>
    if name = "real" then some (.float value)
    else if name = "imag" then some (.float (.finite false 0))
    else none
  | _ => none

/-- The item of a list or text at a place. -/
def itemAt (items : List Datum) (key : List Char) : Except Fault Datum :=
  if key.all Text.isDigit then
    match items[Text.decimalValue key]? with
    | some item => .ok item
    | none => .error .outOfRange
  else .error .wrongType

/-- The part of a datum that a key in square brackets leads to. -/
def item (datum : Datum) (key : List Char) : Except Fault Datum :=
  if key.isEmpty || key.all Text.isDigit && (Format.number? key).isNone then .error .malformedTemplate
  else
    match datum with
    | .text value => itemAt (value.toList.map fun c => .text (String.singleton c)) key
    | .list items => itemAt items key
    | .record fields =>
      match if key.all Text.isDigit then none else Datum.field? (String.ofList key) fields with
      | some value => .ok value
      | none => .error .missingKey
    | _ => .error .wrongType

/-- Whether a character ends a name in a path. -/
def endsName (c : Char) : Bool := c = '.' || c = '['

/-- The part of a datum that the rest of a path leads to. -/
def follow : (fuel : Nat) → Datum → List Char → Except Fault Datum
  | _, datum, [] => .ok datum
  | 0, _, _ => .error .malformedTemplate
  | fuel + 1, datum, c :: cs =>
    if c = '.' then
      let name := cs.takeWhile (!endsName ·)
      if name.isEmpty then .error .malformedTemplate
      else
        match numberPart? datum (String.ofList name) with
        | some part => follow fuel part (cs.dropWhile (!endsName ·))
        | none => .error .missingPart
    else if c = '[' then
      match cs.dropWhile (· ≠ ']') with
      | [] => .error .malformedTemplate
      | _ :: rest =>
        match item datum (cs.takeWhile (· ≠ ']')) with
        | .ok part => follow fuel part rest
        | .error fault => .error fault
    else .error .malformedTemplate

/-- The value that a path leads to. A name that is missing or a number would count positions, and there
are none. -/
def valueAt (values : List (String × Datum)) (path : List Char) : Except Fault Datum :=
  let name := path.takeWhile (!endsName ·)
  if name.all Text.isDigit then .error .malformedTemplate
  else
    let value := (Datum.field? (String.ofList name) values).getD
      (.text ("\x7b" ++ String.ofList name ++ "\x7d"))
    follow path.length value (path.drop name.length)

/-- A datum after a conversion: as it is shown, between quotes, or between quotes and in ASCII. -/
def converted (datum : Datum) : Option Char → Except Fault Datum
  | none => .ok datum
  | some 's' => (datum.written Datum.shown).map .text
  | some 'r' => (datum.written Datum.shownInside).map .text
  | some 'a' => (datum.written Datum.shownPlainly).map .text
  | some _ => .error .malformedTemplate

/-! ## Filling in -/

/-- A part as text; `expand` fills in the fields of a format. -/
def partText (values : List (String × Datum)) (expand : List Char → Except Fault String) :
    TemplatePart → Except Fault String
  | .text plain => .ok plain
  | .malformed => .error .malformedTemplate
  | .field field => do
    let value ← converted (← valueAt values field.path) field.conversion
    if field.format.contains '\x7b' then value.formatted (← expand field.format).toList
    else value.formatted field.format

/-- A template with its fields filled in; formats have fields down to a depth. -/
def fillTo (values : List (String × Datum)) : (depth : Nat) → List Char → Except Fault String
  | 0, _ => .error .malformedTemplate
  | depth + 1, template => do
    let texts ← (parts template).mapM (partText values (fillTo values depth))
    return String.join texts

/-- A template with its fields filled in. Fields in formats have no fields in theirs. -/
def fill (template : String) (values : List (String × Datum)) : Except Fault String :=
  fillTo values 2 template.toList

end Template

end Patchbay
