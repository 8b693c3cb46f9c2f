import Patchbay.Console.Markup

/-!
# Text for the console

Lines, tables and panels, all of text with styles. A cell of a table may have several lines.
-/

namespace Patchbay.Console

/-- A text filled up with blanks. -/
def padRight (width : Nat) (text : String) : String :=
  text ++ String.ofList (List.replicate (width - text.length) ' ')

/-- Texts as lines. -/
def unlines (lines : List String) : String := String.join (lines.map (· ++ "\n"))

/-- Texts with styles as a plain console shows them. -/
def plainAll : List String → Except Fault (List String)
  | [] => .ok []
  | text :: texts => do
    let first ← Markup.plain text
    let rest ← plainAll texts
    return first :: rest

/-- Rows of texts with styles as a plain console shows them. -/
def plainRows : List (List String) → Except Fault (List (List String))
  | [] => .ok []
  | row :: rows => do
    let first ← plainAll row
    let rest ← plainRows rows
    return first :: rest

/-- A line. -/
def line (text : String) : Except Fault String := (Markup.plain text).map (· ++ "\n")

/-- The lines of a cell. -/
def cellLines (cell : String) : List String := cell.splitOn "\n"

/-- The width of each column: that of its widest line. -/
def columnWidths (rows : List (List String)) (columns : Nat) : List Nat :=
  (List.range columns).map fun place =>
    rows.foldl (fun width row => (cellLines (row.getD place "")).foldl (fun w l => max w l.length) width) 0

/-- The lines of a row: those of its cells side by side. -/
def rowLines (widths : List Nat) (row : List String) : List String :=
  let cells := row.map cellLines
  let height := cells.foldl (fun height cell => max height cell.length) 0
  (List.range height).map fun place =>
    "  ".intercalate ((cells.zip widths).map fun (cell, width) => padRight width (cell.getD place ""))

/-- A table with its title, its header and its rows. -/
def table (title : String) (header : List String) (rows : List (List String)) : Except Fault String := do
  let title ← Markup.plain title
  let rows ← plainRows rows
  let widths := columnWidths (header :: rows) header.length
  return unlines (title :: (header :: rows).flatMap (rowLines widths))

/-- A panel with its title and its body. -/
def panel (title body : String) : Except Fault String := do
  let title ← Markup.plain title
  let body ← Markup.plain body
  return unlines (title :: (cellLines body).map ("  " ++ ·))

end Patchbay.Console
