import Patchbay.Primitive

/-!
# Libraries

A library makes boxes visible under dotted names. It may also own a whole prefix: a name under it is then
known, with a dimension that is not.
-/

namespace Patchbay

/-- A box of a library. -/
structure LibrarySymbol where
  arity : Dimension
  delay : Bool
deriving DecidableEq, Repr, Inhabited

/-- What a library makes visible. -/
structure Library where
  name : String
  /-- Prefixes, with the library that implements each. -/
  namespaces : Table String String
  symbols : Table String LibrarySymbol
deriving DecidableEq, Repr, Inhabited

/-- Libraries by name. -/
abbrev Libraries := Table String Library

/-- The part of a name before its first point, if it has one. -/
def dottedPrefix? (name : String) : Option String :=
  let cs := name.toList
  if cs.contains '.' then some (String.ofList (cs.takeWhile (· ≠ '.'))) else none

/-- Whether two tables hold the same values under the same keys, in whatever order. -/
def Table.sameContent {κ α : Type} [DecidableEq κ] [DecidableEq α] (s t : Table κ α) : Bool :=
  s.size == t.size && s.entries.all fun e => t.get? e.1 == some e.2

/-- Whether two libraries make the same visible. -/
def Library.same (a b : Library) : Bool :=
  a.name == b.name && a.namespaces.sameContent b.namespaces && a.symbols.sameContent b.symbols

/-- The library of a name. -/
def Libraries.find (libraries : Libraries) (name : String) : Except Fault Library :=
  match libraries.get? name with
  | some library => .ok library
  | none => .error (.libraryNotFound name)

/-- A box of a library from a record. -/
def LibrarySymbol.check (datum : Datum) : Checked LibrarySymbol := do
  let fields ← datum.checkRecord
  let (arity, delay) ← Checked.zip (Datum.required "arity" Dimension.check fields)
    (Datum.defaulted "delay" false Datum.checkBool fields)
  return ⟨arity, delay⟩

/-- A library from a record. -/
def Library.check (datum : Datum) : Checked Library := do
  let fields ← datum.checkRecord
  let (name, namespaces, symbols) ← Checked.zip (Datum.required "name" Datum.checkText fields)
    (Checked.zip (Datum.defaulted "namespaces" .empty (Datum.checkTable Datum.checkText) fields)
      (Datum.defaulted "symbols" .empty (Datum.checkTable LibrarySymbol.check) fields))
  return ⟨name, namespaces, symbols⟩

/-- The library that a caller exports under a name; the export may rename it. -/
def Library.ofExport (name : String) (datum : Datum) : Except Fault Library :=
  match datum with
  | .record fields =>
    (Library.check (.record ((Table.ofList (("name", .text name) :: fields)).entries))).orFault
  | _ => .error .wrongType

/-- Libraries from exports, one after another; the first fault ends it. -/
def Libraries.ofExports : List (String × Datum) → Except Fault (List (String × Library))
  | [] => .ok []
  | (name, datum) :: rest => do
    let library ← Library.ofExport name datum
    let libraries ← Libraries.ofExports rest
    return (name, library) :: libraries

/-- The dictionary of libraries that a caller hands in. -/
def Libraries.load (exports : List (String × Datum)) : Except Fault Libraries :=
  (Libraries.ofExports exports).map Table.ofList

end Patchbay
