import Patchbay.Datum
import Patchbay.Position
import Patchbay.Table

/-!
# Diagnostics

A diagnostic is one error or warning as callers see it: its kind, its place, its message, and what a
tool may need beside the message.
-/

namespace Patchbay

/-- How grave a diagnostic is. -/
inductive Severity where
  | error
  | warning
deriving DecidableEq, Repr, Inhabited

/-- The name of a severity. -/
def Severity.name : Severity → String
  | .error => "error"
  | .warning => "warning"

/-- All severities. -/
def Severity.all : List Severity := [.error, .warning]

/-- The kinds of diagnostics. -/
inductive DiagnosticKind where
  | lexical
  | grammar
  | undefined
  | duplicate
  | circular
  | dimension
  | causality
  | range
  | path
  | library
  | timeout
deriving DecidableEq, Repr, Inhabited

namespace DiagnosticKind

/-- The name of a kind. -/
def name : DiagnosticKind → String
  | .lexical => "LexicalError"
  | .grammar => "SyntaxError"
  | .undefined => "UndefinedSymbolError"
  | .duplicate => "DuplicateDefinitionError"
  | .circular => "CircularDefinitionError"
  | .dimension => "BoxDimensionError"
  | .causality => "CausalityWarning"
  | .range => "ParameterRangeError"
  | .path => "DuplicatePathError"
  | .library => "ImportNotFoundError"
  | .timeout => "AnalysisTimeoutError"

/-- All kinds. -/
def all : List DiagnosticKind :=
  [.lexical, .grammar, .undefined, .duplicate, .circular, .dimension, .causality, .range, .path,
   .library, .timeout]

/-- The kind with this name. -/
def ofName? (name : String) : Option DiagnosticKind := all.find? fun k => k.name == name

end DiagnosticKind

/-- Where a dimension does not fit. -/
inductive Mismatch where
  | sequential
  | split
  | merge
  | recursive
  | call
deriving DecidableEq, Repr, Inhabited

/-- The name of a mismatch. -/
def Mismatch.name : Mismatch → String
  | .sequential => "Sequential"
  | .split => "Split"
  | .merge => "Merge"
  | .recursive => "Recursive"
  | .call => "Call"

/-- All mismatches. -/
def Mismatch.all : List Mismatch := [.sequential, .split, .merge, .recursive, .call]

/-- One error or warning. -/
structure Diagnostic where
  kind : DiagnosticKind
  severity : Severity
  position : Position
  message : String
  subtype : Option Mismatch
  suggestion : Option String
  related : List Position
  data : Table String Datum
deriving Inhabited

namespace Diagnostic

/-- Errors come before warnings. -/
def rank (d : Diagnostic) : Nat := if d.severity = .error then 0 else 1

/-- Whether `d` may stand before `e`: errors first, then by place. -/
def notAfter (d e : Diagnostic) : Bool :=
  decide (d.rank < e.rank) || (decide (d.rank = e.rank) && d.position.before e.position)

/-- Whether the diagnostic proposes something. An empty proposal is none. -/
def hasSuggestion (d : Diagnostic) : Bool :=
  match d.suggestion with
  | some s => s ≠ ""
  | none => false

/-- Whether the diagnostic is an error. -/
def isError (d : Diagnostic) : Bool := d.severity == .error

end Diagnostic

end Patchbay
