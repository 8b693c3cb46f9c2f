import Patchbay.Number.Reading

/-!
# Literal values

Actions in text for the console have arguments that are literal values: numbers, texts, bytes, a few words
such as `None`, and tuples, sets and mappings of them. Nothing is computed, except that a real and an
imaginary number may be added. Only whether a text is that of a value matters here, so reading yields a
kind of value in the place of the value.
-/

namespace Patchbay.Literal

/-- Kinds of values, as far as they decide what may be built from them. -/
inductive Kind where
  | real
  | imaginary
  | signedReal
  /-- Any other value that may be a key. -/
  | key
  /-- A value that may not be a key. -/
  | noKey
  /-- The name of the call that gives the empty set, before it is called. -/
  | setName
deriving DecidableEq, Repr, Inhabited

/-- Whether a value may be a key of a mapping or a member of a set. -/
def Kind.isKey : Kind → Bool
  | .noKey | .setName => false
  | _ => true

/-- Whether reading has come to a value. -/
def Kind.isValue (kind : Kind) : Bool := kind ≠ .setName

/-- A kind of value and what follows its text. -/
abbrev Reading := Option (Kind × List Char)

/-! ## Blanks and names -/

/-- Drops the rest of a line. -/
def dropLine (cs : List Char) : List Char := cs.dropWhile fun c => c ≠ '\n' && c ≠ '\r'

/-- Drops blanks, and line ends after a backslash; inside brackets also comments and other line ends. Each
step drops a character, so the length is fuel enough. -/
def dropBlanksFrom (inside : Bool) : (fuel : Nat) → List Char → List Char
  | 0, cs => cs
  | _ + 1, [] => []
  | fuel + 1, c :: cs =>
    if c = ' ' || c = '\t' || c = '\x0c' then dropBlanksFrom inside fuel cs
    else if c = '\\' && (cs.head? = some '\n' || cs.head? = some '\r') then
      dropBlanksFrom inside fuel (cs.drop 1)
    else if inside && (c = '\n' || c = '\r') then dropBlanksFrom inside fuel cs
    else if inside && c = '#' then dropBlanksFrom inside fuel (dropLine cs)
    else c :: cs

/-- Drops blanks. -/
def dropBlanks (inside : Bool) (cs : List Char) : List Char := dropBlanksFrom inside cs.length cs

/-- Whether a character may stand in a name. -/
def isNameCharacter (c : Char) : Bool := c.isAlphanum || c = '_' || 0x80 ≤ c.toNat

/-! ## Numbers -/

/-- Digits, with single underscores between them, from the start of a text. -/
def readDigits (isDigit : Char → Bool) (cs : List Char) : List Char × List Char :=
  match cs with
  | [] => ([], [])
  | '_' :: c :: rest =>
    if isDigit c then
      let (digits, rest) := readDigits isDigit rest
      (c :: digits, rest)
    else ([], '_' :: c :: rest)
  | c :: rest =>
    if isDigit c then
      let (digits, rest) := readDigits isDigit rest
      (c :: digits, rest)
    else ([], c :: rest)

/-- Decimal digits from the start of a text; the first character must be one. -/
def readDecimals (cs : List Char) : List Char × List Char :=
  if cs.head?.any Char.isDigit then readDigits Char.isDigit cs else ([], cs)

/-- Whether a character is a digit in a base, by the letter that announces the base. -/
def isDigitIn? : Char → Option (Char → Bool)
  | 'x' | 'X' => some fun c => c.isDigit || ('a' ≤ c.toLower && c.toLower ≤ 'f')
  | 'o' | 'O' => some fun c => '0' ≤ c && c ≤ '7'
  | 'b' | 'B' => some fun c => c = '0' || c = '1'
  | _ => none

/-- A number ends where no name could go on. -/
def endNumber (kind : Kind) (cs : List Char) : Reading :=
  if cs.head?.any isNameCharacter then none else some (kind, cs)

/-- Reads an exponent if there is one; none if it has no digits. -/
def readExponent (cs : List Char) : Option (Bool × List Char) :=
  match cs with
  | 'e' :: cs | 'E' :: cs =>
    let cs := if cs.head? = some '+' || cs.head? = some '-' then cs.drop 1 else cs
    match readDecimals cs with
    | ([], _) => none
    | (_, rest) => some (true, rest)
  | cs => some (false, cs)

/-- Reads a decimal number, which is imaginary before a `j`. A whole number starts with a zero only if it
is zero. -/
def readDecimal (cs : List Char) : Reading :=
  let (whole, afterWhole) := readDecimals cs
  let pointed := afterWhole.head? = some '.'
  let (fraction, afterFraction) := if pointed then readDecimals (afterWhole.drop 1) else ([], afterWhole)
  if whole.isEmpty && fraction.isEmpty then none
  else do
    let (exponential, rest) ← readExponent afterFraction
    match rest with
    | 'j' :: rest | 'J' :: rest => endNumber .imaginary rest
    | rest =>
      if !pointed && !exponential
          && ((whole.head? = some '0' && whole.any (· ≠ '0')) || Number.digitLimit < whole.length) then none
      else endNumber .real rest

/-- Reads a number. -/
def readNumber (cs : List Char) : Reading :=
  match cs with
  | '0' :: c :: rest =>
    match isDigitIn? c with
    | some isDigit =>
      match readDigits isDigit rest with
      | ([], _) => none
      | (_, rest) => endNumber .real rest
    | none => readDecimal cs
  | _ => readDecimal cs

/-! ## Texts -/

/-- Whether a character is a hexadecimal digit. -/
def isHex (c : Char) : Bool := c.isDigit || ('a' ≤ c.toLower && c.toLower ≤ 'f')

/-- Whether an escape is followed by as many hexadecimal digits as it needs, of a number below a bound. -/
def escapesHex (count bound : Nat) (cs : List Char) : Bool :=
  (cs.take count).length = count && (cs.take count).all isHex && Text.hexValue (cs.take count) < bound

/-- Whether what follows a backslash and `c` makes an escape. Bytes have no escapes for characters. -/
def isEscape (bytes : Bool) (c : Char) (rest : List Char) : Bool :=
  if c = 'x' then escapesHex 2 0x100 rest
  else if bytes then true
  else if c = 'u' then escapesHex 4 0x10000 rest
  else if c = 'U' then escapesHex 8 0x110000 rest
  else if c = 'N' then rest.head? = some '\x7b' && (rest.drop 1).head?.any Char.isAlpha && rest.contains '\x7d'
  else true

/-- What follows a text up to its closing quotes: one, or three for a text of several lines. -/
def endText (raw bytes triple : Bool) (quote : Char) : List Char → Option (List Char)
  | [] => none
  | '\\' :: c :: rest =>
    if (raw || isEscape bytes c rest) && !(bytes && 0x80 ≤ c.toNat) then endText raw bytes triple quote rest
    else none
  | c :: rest =>
    if c = quote && (!triple || rest.take 2 = [quote, quote]) then
      some (if triple then rest.drop 2 else rest)
    else if (!triple && (c = '\n' || c = '\r')) || (bytes && 0x80 ≤ c.toNat) || c = '\\' then none
    else endText raw bytes triple quote rest

/-- The letters that may stand in front of a text: whether backslashes are plain in it, and whether it is
one of bytes. -/
def textMarks : List (String × Bool × Bool) :=
  [("", false, false), ("u", false, false), ("r", true, false), ("b", false, true), ("br", true, true),
   ("rb", true, true)]

/-- Reads a text or bytes: whether it is bytes, and what follows. -/
def readText (cs : List Char) : Option (Bool × List Char) := do
  let mark := cs.takeWhile fun c => c ≠ '\'' && c ≠ '"'
  let (_, raw, bytes) ← textMarks.find? fun m => m.1.toList == mark.map Char.toLower
  match cs.drop mark.length with
  | [] => none
  | quote :: rest =>
    let triple := rest.take 2 == [quote, quote]
    let rest ← endText raw bytes triple quote (if triple then rest.drop 2 else rest)
    return (bytes, rest)

/-- Reads texts that follow each other, which are one text: all are bytes or none is. -/
def readTexts (inside : Bool) : (fuel : Nat) → List Char → Option (Bool × List Char)
  | 0, _ => none
  | fuel + 1, cs => do
    let (bytes, rest) ← readText cs
    match readTexts inside fuel (dropBlanks inside rest) with
    | some (more, rest) => if more = bytes then return (bytes, rest) else none
    | none => if (readText (dropBlanks inside rest)).isSome then none else return (bytes, rest)

/-! ## Values -/

/-- The kind of a name that stands for a value, or for the call of the empty set. -/
def namedKind? (name : String) : Option Kind :=
  if ["True", "False", "None"].contains name then some .key
  else if name = "set" then some .setName
  else none

/-- The kind of a number with a sign. -/
def signed? : Kind → Option Kind
  | .real => some .signedReal
  | .imaginary => some .key
  | _ => none

/-- The kind of a sum: a real and an imaginary number. -/
def sum? : (left right : Kind) → Option Kind
  | .real, .imaginary | .signedReal, .imaginary => some .key
  | _, _ => none

/-- How deeply brackets may be nested. -/
def depthLimit : Nat := 200

mutual

/-- Reads a value that is not composed of others by signs. -/
def readAtom : (fuel depth : Nat) → List Char → Reading
  | 0, _, _ => none
  | fuel + 1, depth, cs =>
    match cs with
    | [] => none
    | '(' :: rest => if depth < depthLimit then readTuple fuel (depth + 1) (dropBlanks true rest) else none
    | '\x7b' :: rest => if depth < depthLimit then readBraces fuel (depth + 1) (dropBlanks true rest) else none
    | '.' :: '.' :: '.' :: rest => some (.key, rest)
    | c :: _ =>
      if c.isDigit || c = '.' then readNumber cs
      else
        match readTexts (0 < depth) cs.length cs with
        | some (_, rest) => some (.key, rest)
        | none =>
          let name := cs.takeWhile isNameCharacter
          (namedKind? (String.ofList name)).map fun kind => (kind, cs.drop name.length)

/-- Reads a value after which a call may stand: only that of the empty set is a value. -/
def readCalled : (fuel depth : Nat) → List Char → Reading
  | 0, _, _ => none
  | fuel + 1, depth, cs => do
    let (kind, rest) ← readAtom fuel depth cs
    match dropBlanks (0 < depth) rest with
    | '(' :: afterOpening =>
      match kind, dropBlanks true afterOpening with
      | .setName, ')' :: rest => return (.noKey, rest)
      | _, _ => none
    | _ => return (kind, rest)

/-- Reads a value with a sign in front of it or without. -/
def readSigned : (fuel depth : Nat) → List Char → Reading
  | 0, _, _ => none
  | fuel + 1, depth, cs =>
    match cs with
    | '+' :: rest | '-' :: rest => do
      let (kind, rest) ← readSigned fuel depth (dropBlanks (0 < depth) rest)
      let kind ← signed? kind
      return (kind, rest)
    | _ => readCalled fuel depth cs

/-- Reads a value, which may be a sum. -/
def readValue : (fuel depth : Nat) → List Char → Reading
  | 0, _, _ => none
  | fuel + 1, depth, cs => do
    let (left, rest) ← readSigned fuel depth cs
    match dropBlanks (0 < depth) rest with
    | '+' :: rest | '-' :: rest =>
      let (right, rest) ← readSigned fuel depth (dropBlanks (0 < depth) rest)
      let kind ← sum? left right
      return (kind, dropBlanks (0 < depth) rest)
    | rest => return (left, rest)

/-- Reads the values of a tuple after its first one, up to what ends it. -/
def readMore : (fuel depth : Nat) → (kind : Kind) → List Char → Reading
  | 0, _, _, _ => none
  | fuel + 1, depth, kind, cs =>
    match cs with
    | ',' :: rest =>
      match dropBlanks (0 < depth || (dropBlanks true rest).isEmpty) rest with
      | [] => some (kind, [])
      | ')' :: rest => some (kind, ')' :: rest)
      | rest => do
        let (next, rest) ← readValue fuel depth rest
        if next.isValue then readMore fuel depth (if next.isKey then kind else .noKey) rest else none
    | rest => some (kind, rest)

/-- Reads a tuple after its opening parenthesis; a single value without a comma is that value. -/
def readTuple : (fuel depth : Nat) → List Char → Reading
  | 0, _, _ => none
  | fuel + 1, depth, cs =>
    match cs with
    | ')' :: rest => some (.key, rest)
    | _ => do
      let (first, rest) ← readValue fuel depth cs
      match rest with
      | ')' :: rest => return (first, rest)
      | _ =>
        if !first.isValue then none
        else
          match ← readMore fuel depth (if first.isKey then .key else .noKey) rest with
          | (kind, ')' :: rest) => return (kind, rest)
          | _ => none

/-- Reads a set or a mapping after its opening brace. -/
def readBraces : (fuel depth : Nat) → List Char → Reading
  | 0, _, _ => none
  | fuel + 1, depth, cs =>
    match cs with
    | '\x7d' :: rest => some (.noKey, rest)
    | _ => do
      let (first, rest) ← readValue fuel depth cs
      if !first.isKey then none
      else
        match rest with
        | ':' :: rest =>
          let (value, rest) ← readValue fuel depth (dropBlanks true rest)
          if value.isValue then readMembers fuel depth true rest else none
        | _ => readMembers fuel depth false rest

/-- Reads the members of a set or of a mapping after the first one, up to the closing brace. -/
def readMembers : (fuel depth : Nat) → (mapping : Bool) → List Char → Reading
  | 0, _, _, _ => none
  | fuel + 1, depth, mapping, cs =>
    match cs with
    | '\x7d' :: rest => some (.noKey, rest)
    | ',' :: rest =>
      match dropBlanks true rest with
      | '\x7d' :: rest => some (.noKey, rest)
      | rest => do
        let (first, rest) ← readValue fuel depth rest
        if !first.isKey then none
        else if !mapping then readMembers fuel depth mapping rest
        else
          match rest with
          | ':' :: rest =>
            let (value, rest) ← readValue fuel depth (dropBlanks true rest)
            if value.isValue then readMembers fuel depth mapping rest else none
          | _ => none
    | _ => none

end

/-- Whether a text is that of a value, or of several with commas between them. Comments may follow. -/
def isLiteral (cs : List Char) : Bool :=
  -- Between two brackets reading goes through five functions, and each takes a unit of fuel.
  let fuel := 8 * cs.length + 8
  match readValue fuel 0 (dropBlanks false cs) with
  | none => false
  | some (first, rest) =>
    first.isValue && !cs.contains '\x00' &&
      match readMore fuel 0 .key rest with
      | some (_, rest) => (dropBlanks true rest).isEmpty
      | none => false

end Patchbay.Literal
