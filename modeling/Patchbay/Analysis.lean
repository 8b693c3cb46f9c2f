import Patchbay.Digest
import Patchbay.Settings
import Patchbay.Sizing

/-!
# The analysis of a text

The text is cut into tokens and read; names are bound, boxes sized and controls collected. Every stage
works on what the one before could make of the text, so a report names the problems of all of them.
-/

namespace Patchbay

/-- The tables an analysis works with: built-in boxes and rules of advice. -/
structure Registry where
  primitives : Primitives
  rules : Rules
deriving Inhabited

namespace Registry

/-- The tables of the language. -/
def standard : Registry := ⟨standardPrimitives, standardRules⟩

/-- Adds a built-in box; one of the same name is replaced. -/
def addPrimitive (g : Registry) (p : Primitive) : Registry :=
  { g with primitives := g.primitives.insert p.name p }

/-- Adds a rule, to be tried last; one of the same name is replaced in its place. -/
def addRule (g : Registry) (rule : Rule) : Registry := { g with rules := g.rules.insert rule.id rule }

/-- All findings about a text, in the order of the stages, and its outline. -/
def examine (g : Registry) (settings : Settings) (detail : Detail) (source : String) :
    Except Fault (List Finding × Outline) := do
  let (tokens, lexical) := scan source
  let (program, grammatical) ← Program.parse tokens settings.maxDepth
  let (resolution, bound) := program.resolve g.primitives settings.libraries
  let sized ← program.dimensions resolution g.primitives
  let outline := program.outline resolution sized.dims detail tokens source
  let ranges ← rangeFindings outline.controls
  return (lexical ++ grammatical ++ bound ++ sized.findings ++ ranges ++ pathFindings outline.controls,
    outline)

/-- The report on a text, without looking at the time. -/
def report (g : Registry) (settings : Settings) (detail : Detail) (source : String) :
    Except Fault Report := do
  let (findings, outline) ← g.examine settings detail source
  Report.aggregate g.rules (findings.map Finding.toDiagnostic) (some outline) settings.fixLimit
    (some (Digest.ofText source))

/-- The report on a text. -/
def analyze (g : Registry) (settings : Settings) (detail : Detail) (source : String) :
    Except Fault Report :=
  match settings.expired? with
  | some seconds => Report.outOfTime g.rules seconds settings.fixLimit (some (Digest.ofText source))
  | none => g.report settings detail source

end Registry

end Patchbay
