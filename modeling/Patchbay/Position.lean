/-!
# Positions in a text

Lines and columns count from one; only the line feed starts a new line.
-/

namespace Patchbay

/-- A place in a text. -/
structure Position where
  line : Int
  column : Int
deriving DecidableEq, Repr, Inhabited

namespace Position

/-- The first place of a text. -/
def start : Position := ⟨1, 1⟩

/-- The place after a character. -/
def advance (p : Position) (c : Char) : Position :=
  if c = '\n' then ⟨p.line + 1, 1⟩ else ⟨p.line, p.column + 1⟩

/-- The place after a text. -/
def after (p : Position) (text : List Char) : Position := text.foldl advance p

/-- The place of an offset: one line for each line feed before it, and a column counted from the last
of them. -/
def ofOffset (text : List Char) (offset : Nat) : Position :=
  ⟨1 + (text.take offset).count '\n', 1 + ((text.take offset).reverse.takeWhile (· ≠ '\n')).length⟩

/-- Order of reading: by line, then by column. -/
def before (p q : Position) : Bool :=
  decide (p.line < q.line) || (decide (p.line = q.line) && decide (p.column ≤ q.column))

theorem after_append (p : Position) (s t : List Char) : p.after (s ++ t) = (p.after s).after t := by
  simp [after, List.foldl_append]

end Position

end Patchbay
