import Patchbay.Text.Digit
import Patchbay.Text.Printable

/-!
# Quoted text

A text is shown between single quotes, or between double quotes when it holds a single quote and no
double one. The backslash and the quote in use are escaped, tab, line feed and carriage return have
short escapes, and what cannot be printed is shown by its code point.
-/

namespace Patchbay.Text

/-- A character that cannot be printed, by its code point in two, four or eight digits. -/
def escapedCode (c : Char) : List Char :=
  if c.toNat < 0x100 then ['\\', 'x'] ++ hexDigits 2 c.toNat
  else if c.toNat < 0x10000 then ['\\', 'u'] ++ hexDigits 4 c.toNat
  else ['\\', 'U'] ++ hexDigits 8 c.toNat

/-- A character as it stands between quotes `quote`. -/
def escaped (quote c : Char) : List Char :=
  if c == quote || c == '\\' then ['\\', c]
  else if c == '\t' then ['\\', 't']
  else if c == '\n' then ['\\', 'n']
  else if c == '\r' then ['\\', 'r']
  else if isPrintable c then [c]
  else escapedCode c

/-- A text between quotes. -/
def quoted (cs : List Char) : List Char :=
  let quote := if cs.contains '\'' && !cs.contains '"' then '"' else '\''
  quote :: (cs.flatMap (escaped quote) ++ [quote])

end Patchbay.Text
