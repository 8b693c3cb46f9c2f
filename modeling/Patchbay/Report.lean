import Patchbay.Advice
import Patchbay.Outline

/-!
# Reports

A report gathers the diagnostics of all stages: each with advice, errors before warnings, then by place.
The first few that propose something are its quick fixes.
-/

namespace Patchbay

/-- The result of an analysis. -/
structure Report where
  valid : Bool
  diagnostics : List Diagnostic
  quickFixes : List Diagnostic
  outline : Option Outline
  digest : Option String
deriving Inhabited

/-- How many quick fixes a report has at most, unless settings say otherwise. -/
def defaultFixLimit : Int := 5

/-- The first items of a list; a negative limit leaves out as many at the end. -/
def takeLimit {α : Type} (limit : Int) (items : List α) : List α :=
  if limit < 0 then items.take (items.length + limit).toNat else items.take limit.toNat

/-- Diagnostics with advice, one after another; the first fault ends it. -/
def Rules.annotateAll (rules : Rules) : List Diagnostic → Except Fault (List Diagnostic)
  | [] => .ok []
  | d :: ds => do
    let annotated ← rules.annotate d
    let rest ← rules.annotateAll ds
    return annotated :: rest

/-- Diagnostics in order: errors before warnings, then by place, and as they came where these agree. -/
def inOrder (diagnostics : List Diagnostic) : List Diagnostic := diagnostics.mergeSort Diagnostic.notAfter

namespace Report

/-- The report of diagnostics that have their advice. -/
def ofAnnotated (diagnostics : List Diagnostic) (outline : Option Outline) (limit : Int)
    (digest : Option String) : Report :=
  let ordered := inOrder diagnostics
  { valid := !ordered.any Diagnostic.isError
    diagnostics := ordered
    quickFixes := takeLimit limit (ordered.filter Diagnostic.hasSuggestion)
    outline
    digest }

/-- The report of diagnostics. -/
def aggregate (rules : Rules) (diagnostics : List Diagnostic) (outline : Option Outline) (limit : Int)
    (digest : Option String) : Except Fault Report := do
  let annotated ← rules.annotateAll diagnostics
  return ofAnnotated annotated outline limit digest

/-- The report of an analysis that ran out of time: one error and nothing else. -/
def outOfTime (rules : Rules) (seconds : Binary64) (limit : Int) (digest : Option String) :
    Except Fault Report := do
  let diagnostic ← rules.annotate (Finding.toDiagnostic ⟨.start, .outOfTime seconds⟩)
  return ⟨false, [diagnostic], takeLimit limit [diagnostic], none, digest⟩

/-- The errors of a report. -/
def errors (r : Report) : List Diagnostic := r.diagnostics.filter Diagnostic.isError

/-- The warnings of a report. -/
def warnings (r : Report) : List Diagnostic := r.diagnostics.filter fun d => !d.isError

/-- The diagnostics of a kind. -/
def ofKind (r : Report) (kind : DiagnosticKind) : List Diagnostic :=
  r.diagnostics.filter fun d => d.kind == kind

/-- The outline of a report, or a bare one. -/
def outlineOr (r : Report) (detail : Detail) : Outline := r.outline.getD (.bare detail)

end Report

end Patchbay
