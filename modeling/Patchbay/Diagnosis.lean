import Patchbay.Analysis
import Patchbay.CompilerMessage
import Patchbay.Guide
import Patchbay.Text.Word

/-!
# Explaining messages of a compiler

The first error in a compiler's output decides what is explained. Given the program it is about, the
explanation is joined with what the analysis finds there.
-/

namespace Patchbay

/-- An explanation of a compiler's output. -/
structure Diagnosis where
  trouble : Trouble
  fixes : List String
  line : Option Int
  file : Option String
  /-- The lines of the program around the one in question. -/
  context : List String
  related : List Diagnostic
deriving Inhabited

/-- The guide that a diagnosis rests on. -/
def Diagnosis.guide (d : Diagnosis) : Guide := d.trouble.guide

/-! ## Context -/

/-- A text moved to the right end of a field. -/
def padLeft (width : Nat) (text : String) : String :=
  String.ofList (List.replicate (width - text.length) ' ') ++ text

/-- How many lines before and after one are its context. -/
def contextLines : Int := 3

/-- The lines of a text around one, numbered from one, with a mark at that line. -/
def extractContext (source : String) (line around : Int) : List String :=
  let lines := Text.lines source
  let first := max 0 (line - around - 1)
  let last := min (lines.length : Int) (line + around)
  let width := (toString last).length
  let chosen := (lines.zipIdx.take last.toNat).drop first.toNat
  chosen.map fun (text, place) =>
    let number := place + 1
    (if (number : Int) = line then "> " else "  ") ++ padLeft width (toString number) ++ " | " ++ text

/-! ## Fixes -/

/-- What follows a character if a text starts with it, else the text. -/
def dropOne (c : Char) : List Char → List Char
  | d :: rest => if c = d then rest else d :: rest
  | [] => []

/-- The name that a message calls undefined. -/
def undefinedName? (message : String) : Option String :=
  (Text.afterWord "undefined symbol".toList message.toList).findSome? fun rest =>
    let rest := dropOne ':' (rest.dropWhile Text.isBlank)
    let rest := dropOne '\'' (rest.dropWhile Text.isBlank)
    match rest.takeWhile fun c => Text.isWord c || c == '.' with
    | [] => none
    | name => some (String.ofList name)

/-- The fixes that the names in a message suggest. -/
def specificFixes (trouble : Trouble) (message : String) : List String :=
  if trouble ≠ .undefinedSymbol then []
  else
    match undefinedName? message with
    | none => []
    | some name =>
      if (standardPrefix? name).isSome then
        ["'" ++ name ++ "' comes from the standard libraries: add import(\"stdfaust.lib\");"]
      else ["Define '" ++ name ++ "' before using it, or check its spelling"]

/-- The items of a list without those that came before. -/
def firstOccurrences (items : List String) : List String :=
  (items.foldl (fun seen item => if seen.contains item then seen else item :: seen) []).reverse

/-- Whether a diagnostic has to do with a message: it stands on its line or is of its kind of trouble. -/
def Diagnostic.concerns (trouble : Trouble) (line : Option Int) (d : Diagnostic) : Bool :=
  line == some d.position.line || Trouble.ofDiagnostic d.kind d.message == trouble

/-! ## Diagnosis -/

/-- The message that is explained: the first error, else the first message. -/
def CompilerMessage.primary? (messages : List CompilerMessage) : Option CompilerMessage :=
  (messages.find? fun m => m.severity == .error).or messages.head?

namespace Diagnosis

/-- The explanation of a compiler's output alone. -/
def ofOutput (output : String) : Except Fault Diagnosis := do
  let messages ← CompilerMessage.readAll output
  let primary := CompilerMessage.primary? messages
  let message := (primary.map (·.message)).getD output
  let trouble := Trouble.ofMessage message
  return {
    trouble
    fixes := specificFixes trouble message ++ trouble.guide.fixes
    line := (primary.bind (·.line)).map fun n => (n : Int)
    file := primary.bind (·.file)
    context := []
    related := [] }

/-- The explanation joined with the report on the program. Fixes that the report proposes come first. -/
def withReport (d : Diagnosis) (source : String) (report : Report) : Diagnosis :=
  let related := report.diagnostics.filter (Diagnostic.concerns d.trouble d.line)
  let line := d.line.or (related.head?.map fun r => r.position.line)
  let proposed := (related.filter Diagnostic.hasSuggestion).filterMap (·.suggestion)
  { d with
    related
    line
    fixes := (firstOccurrences (proposed ++ d.fixes)).filter fun fix => Text.trimmed fix ≠ ""
    context := match line with
      | some line => extractContext source line contextLines
      | none => [] }

end Diagnosis

/-- The explanation of a compiler's output, against the program it is about if that is given. -/
def Registry.diagnose (g : Registry) (settings : Settings) (output : String) (source : Option String) :
    Except Fault Diagnosis := do
  let d ← Diagnosis.ofOutput output
  match source with
  | none => return d
  | some source => return d.withReport source (← g.analyze settings settings.detail source)

end Patchbay
