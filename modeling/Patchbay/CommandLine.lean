import Patchbay.CommandLine.Arguments
import Patchbay.CommandLine.Workspace
import Patchbay.Console
import Patchbay.Datum.Json
import Patchbay.Diagnosis

/-!
# The command line

Four commands: `check` reports problems in files, `structure` shows what a file consists of, `diagnose`
explains a message of a compiler, and `fixes` lists quick fixes. Each prints text, or documents when asked
for JSON. A command ends with one if it found an error, and with two if it was called wrongly.
-/

namespace Patchbay

/-- What is to be done. -/
inductive Command where
  | check (files : List String) (json : Bool) (timeout : Binary64) (store : Option String)
  | outline (file : String) (detail : Detail) (json : Bool) (timeout : Binary64)
  | diagnose (message : String) (source : Option String) (json : Bool)
  | fixes (file : String) (limit : Int) (json : Bool)
deriving DecidableEq, Repr, Inhabited

/-- How a call is understood. -/
inductive Call where
  /-- The call is wrong. -/
  | misused
  /-- The call asks how to call. -/
  | help
  | command (command : Command)
deriving DecidableEq, Repr, Inhabited

/-- How a call ends. -/
inductive Outcome where
  | misused
  | failed (fault : Fault)
  | finished (exit : Nat) (output : String)
deriving DecidableEq, Repr, Inhabited

namespace CommandLine

/-! ## Calls -/

/-- The option that asks how to call. -/
def helpSwitch : Switch := ⟨"help", ["--help"], false⟩

/-- The option that asks for JSON. -/
def jsonSwitch : Switch := ⟨"json", ["--json"], false⟩

/-- The option that bounds the time. -/
def timeoutSwitch : Switch := ⟨"timeout", ["--timeout"], true⟩

/-- The options before the command. -/
def mainSwitches : List Switch :=
  [⟨"debug", ["--debug"], false⟩, ⟨"verbose", ["--verbose", "-v"], false⟩, helpSwitch]

/-- How many seconds an analysis may take, unless told otherwise. -/
def defaultTimeout : Binary64 := Binary64.ofNat 5

/-- The value of an option: what is absent has its standard value; none if it cannot be read. -/
def optionValue {α : Type} (a : Arguments) (key : String) (standard : α) (read : String → Option α) :
    Option α :=
  match a.value? key with
  | some written => read written
  | none => some standard

/-- The call of a command from its arguments, unless they ask for help. -/
def callOf (switches : List Switch) (args : List String) (make : Arguments → Option Command) : Call :=
  match Arguments.read (helpSwitch :: switches) true none args with
  | none => .misused
  | some a =>
    if a.has "help" then .help
    else
      match make a with
      | some command => .command command
      | none => .misused

/-- The call of `check`. -/
def readCheck (args : List String) : Call :=
  callOf [jsonSwitch, timeoutSwitch, ⟨"store", ["--cache-db"], true⟩] args fun a => do
    let timeout ← optionValue a "timeout" defaultTimeout Number.enteredDouble?
    if a.operands.isEmpty then none
    else
      return .check (a.operands.map cleanPath) (a.has "json") timeout ((a.value? "store").map cleanPath)

/-- The call of `structure`. -/
def readOutline (args : List String) : Call :=
  callOf [jsonSwitch, timeoutSwitch, ⟨"detail", ["--detail", "-d"], true⟩] args fun a => do
    let timeout ← optionValue a "timeout" defaultTimeout Number.enteredDouble?
    let detail ← optionValue a "detail" .basic Detail.ofName?
    match a.operands with
    | [file] => return .outline (cleanPath file) detail (a.has "json") timeout
    | _ => none

/-- The call of `diagnose`. -/
def readDiagnose (args : List String) : Call :=
  callOf [jsonSwitch, ⟨"source", ["--source", "-s"], true⟩] args fun a =>
    match a.operands with
    | [message] => some (.diagnose message ((a.value? "source").map cleanPath) (a.has "json"))
    | _ => none

/-- The call of `fixes`. -/
def readFixes (args : List String) : Call :=
  callOf [jsonSwitch, ⟨"limit", ["--limit", "-n"], true⟩] args fun a => do
    let limit ← optionValue a "limit" defaultFixLimit Number.enteredWhole?
    match a.operands with
    | [file] => return .fixes (cleanPath file) limit (a.has "json")
    | _ => none

/-- How a call is understood. -/
def readCall (args : List String) : Call :=
  match Arguments.read mainSwitches false none args with
  | none => .misused
  | some a =>
    if a.has "help" then .help
    else
      match a.operands with
      | "check" :: rest => readCheck rest
      | "structure" :: rest => readOutline rest
      | "diagnose" :: rest => readDiagnose rest
      | "fixes" :: rest => readFixes rest
      | _ => .misused

/-! ## Settings and files -/

/-- The settings of a call. -/
def settings (timeout : Binary64) (detail : Detail) (limit : Int) : Except Fault Settings :=
  (Settings.check (.record [("timeout_seconds", .float timeout), ("quick_fix_limit", .int limit),
    ("detail_level", .text detail.name)])).orFault

/-- The line about a file that is not there. -/
def missingLine (path : String) : Except Fault String :=
  Console.line ("[red]Error: File " ++ path ++ " not found.[/red]")

/-- Goes on with the text of a file, or ends with a line about its absence. -/
def withFile (w : Workspace) (path : String) (go : String → Except Fault (Nat × String)) :
    Except Fault (Nat × String) := do
  match ← w.read path with
  | some text => go text
  | none => return (1, ← missingLine path)

/-! ## Documents -/

/-- A document on lines of its own. -/
def document (datum : Datum) : String := Json.indent 0 datum ++ "\n"

mutual

/-- A document without the fields that are null. The free data of diagnostics stay as they are. -/
def dropNulls : Datum → Datum
  | .list items => .list (dropNullsItems items)
  | .record fields => .record (dropNullsFields fields)
  | other => other

/-- Documents without the fields that are null. -/
def dropNullsItems : List Datum → List Datum
  | [] => []
  | d :: ds => dropNulls d :: dropNullsItems ds

/-- Fields without those that are null. -/
def dropNullsFields : List (String × Datum) → List (String × Datum)
  | [] => []
  | (name, d) :: fields =>
    match d with
    | .null => dropNullsFields fields
    | d => (name, if name = "data" then d else dropNulls d) :: dropNullsFields fields

end

/-- A report as a document without its outline. -/
def reportDocument (r : Report) : Datum :=
  .record [("valid", .bool r.valid), ("diagnostics", .list (r.diagnostics.map Diagnostic.toDatum)),
    ("quick_fixes", .list (r.quickFixes.map Diagnostic.toDatum)),
    ("source_hash", Datum.ofOption .text r.digest)]

/-- An explanation as a document. -/
def diagnosisDocument (d : Diagnosis) : Datum :=
  .record [("category", .text d.trouble.name), ("diagnosis", .text d.guide.diagnosis),
    ("root_cause", .text d.guide.rootCause), ("suggested_fixes", .list (d.fixes.map .text)),
    ("examples", .list (d.guide.examples.map fun e =>
      .record [("before", .text e.before), ("after", .text e.after)])),
    ("line", Datum.ofOption .int d.line), ("file", Datum.ofOption .text d.file),
    ("context", .list (d.context.map .text)),
    ("related_diagnostics", .list (d.related.map Diagnostic.toDatum))]

/-! ## Texts -/

/-- The style of a diagnostic. -/
def severityStyle (d : Diagnostic) : String := if d.isError then "red" else "yellow"

/-- The kind of a diagnostic in its style. -/
def styledKind (d : Diagnostic) (kind : String) : String := "[" ++ severityStyle d ++ "]" ++ kind ++ "[/]"

/-- A place as text. -/
def placeText (p : Position) : String := toString p.line ++ ":" ++ toString p.column

/-- A table of diagnostics. -/
def diagnosticsTable (title : String) (diagnostics : List Diagnostic) : Except Fault String :=
  Console.table title ["Location", "Kind", "Message", "Suggestion"] (diagnostics.map fun d =>
    let kind := d.kind.name ++ match d.subtype with
      | some subtype => "(" ++ subtype.name ++ ")"
      | none => ""
    [placeText d.position, styledKind d kind, d.message, d.suggestion.getD ""])

/-- What is said about a checked file. -/
def summary (path : String) (r : Report) : Except Fault String := do
  if r.valid && r.warnings.isEmpty then
    Console.line ("[green]" ++ path ++ ": no problems found.[/green]")
  else
    let table ← diagnosticsTable path r.diagnostics
    let status := if r.valid then "[green]valid[/green]" else "[red]invalid[/red]"
    let line ← Console.line (status ++ ": " ++ toString r.errors.length ++ " error(s), "
      ++ toString r.warnings.length ++ " warning(s)")
    return table ++ line

/-- A definition as a row of a table. -/
def definitionRow (d : DefinitionInfo) (indent : String) : Except Fault (List String) := do
  let dimension ← match d.dimension with
    | some dimension => dimension.written
    | none => .ok "?"
  return [indent ++ d.name, toString d.line, ", ".intercalate d.params, dimension]

/-- Definitions as rows of a table, those within a definition below it. -/
def definitionRows : List (DefinitionInfo × String) → Except Fault (List (List String))
  | [] => .ok []
  | (d, indent) :: ds => do
    let row ← definitionRow d indent
    let rows ← definitionRows ds
    return row :: rows

/-- A control as a row of a table. -/
def controlRow (c : Control) : List String :=
  let span := match c.low, c.high with
    | some low, some high => "[" ++ Number.general low ++ ", " ++ Number.general high ++ "]"
    | _, _ => ""
  [c.path, c.kind, (c.initial.map Number.general).getD "", span]

/-- An import in a list of imports. -/
def importText (i : ImportInfo) : String :=
  if i.found then i.path else "[red]" ++ i.path ++ " (not found)[/red]"

/-- A text about items, if there are any. -/
def whenAny {α : Type} (items : List α) (text : Except Fault String) : Except Fault String :=
  if items.isEmpty then .ok "" else text

/-- An outline as text. -/
def outlineText (o : Outline) (diagnostics : List Diagnostic) : Except Fault String := do
  let rows ← definitionRows (o.definitions.flatMap fun d => (d, "") :: d.locals.map (·, "  "))
  let definitions ← Console.table "Definitions" ["Name", "Line", "Params", "Dimension"] rows
  let controls ← whenAny o.controls
    (Console.table "UI Parameters" ["Path", "Kind", "Default", "Range"] (o.controls.map controlRow))
  let imports ← whenAny o.imports
    (Console.line ("Imports: " ++ ", ".intercalate (o.imports.map importText)))
  let metrics ← match o.metrics with
    | none => .ok ""
    | some m => Console.line (toString m.lines ++ " lines, " ++ toString m.tokens
        ++ " tokens, process defined: " ++ (Datum.ofOption .bool o.hasProcess).shown)
  let problems ← whenAny diagnostics (diagnosticsTable "Diagnostics" diagnostics)
  return definitions ++ controls ++ imports ++ metrics ++ problems

/-- A numbered fix. -/
def numberedFix (fix : String) (place : Nat) : String := "  " ++ toString (place + 1) ++ ". " ++ fix

/-- Panels with examples, one after another. -/
def exampleTexts : List FixExample → Except Fault String
  | [] => .ok ""
  | e :: es => do
    let first ← Console.panel "Example" (e.before ++ "\n[dim]-- becomes --[/dim]\n" ++ e.after)
    let rest ← exampleTexts es
    return first ++ rest

/-- An explanation as text. -/
def diagnosisText (d : Diagnosis) : Except Fault String := do
  let body := ["[bold]" ++ d.guide.diagnosis ++ "[/bold]", "Root cause: " ++ d.guide.rootCause, ""]
    ++ d.fixes.zipIdx.map fun (fix, place) => numberedFix fix place
  let panel ← Console.panel ("Diagnosis: " ++ d.trouble.name) ("\n".intercalate body)
  let context := Console.unlines (d.context.map Markup.verbatim)
  let examples ← exampleTexts d.guide.examples
  return panel ++ context ++ examples

/-- Quick fixes as text, numbered from `place` on. -/
def fixesText (path : String) : (place : Nat) → List Diagnostic → Except Fault String
  | _, [] => .ok ""
  | place, d :: ds => do
    let problem ← Console.line (toString place ++ ". [cyan]" ++ path ++ ":" ++ placeText d.position
      ++ "[/cyan] " ++ styledKind d d.kind.name ++ " " ++ d.message)
    let fix ← Console.line ("   [green]fix:[/green] " ++ d.suggestion.getD "")
    let rest ← fixesText path (place + 1) ds
    return problem ++ fix ++ rest

/-! ## Commands -/

/-- The exit of a call: one if there is an error. -/
def exitOf (diagnostics : List Diagnostic) : Nat := if diagnostics.any Diagnostic.isError then 1 else 0

/-- The report on a text, through the cache if there is one. -/
def analyzeIn (g : Registry) (settings : Settings) (cache : Option Cache) (source : String) :
    Except Fault Report × Option Cache :=
  match cache with
  | none => (g.analyze settings settings.detail source, none)
  | some c =>
    let (report, c) := g.analyzeWith c settings settings.detail source
    (report, some c)

/-- What `check` says about a report. -/
def checkText (json : Bool) (path : String) (r : Report) : Except Fault String :=
  if json then .ok (document (reportDocument r)) else summary path r

/-- Checks files, one after another. A file that is missing ends it, and so does a fault; what was
remembered until then stays so. -/
def checkFiles (g : Registry) (w : Workspace) (settings : Settings) (json : Bool) :
    (files : List String) → (cache : Option Cache) → (exit : Nat) → (output : String) →
      Outcome × Option Cache
  | [], cache, exit, output => (.finished exit output, cache)
  | path :: files, cache, exit, output =>
    match w.read path with
    | .error fault => (.failed fault, cache)
    | .ok none =>
      match missingLine path with
      | .error fault => (.failed fault, cache)
      | .ok line => (.finished 1 (output ++ line), cache)
    | .ok (some source) =>
      match analyzeIn g settings cache source with
      | (.error fault, cache) => (.failed fault, cache)
      | (.ok report, cache) =>
        match checkText json path report with
        | .error fault => (.failed fault, cache)
        | .ok text =>
          checkFiles g w settings json files cache (if report.valid then exit else 1) (output ++ text)

/-- The outcome of a command that prints text and exits. -/
def outcomeOf (result : Except Fault (Nat × String)) : Outcome :=
  match result with
  | .ok (exit, output) => .finished exit output
  | .error fault => .failed fault

/-- Checks files with a store that is kept nowhere: the first file to be looked up in it ends the check. -/
def checkPassing (g : Registry) (w : Workspace) (settings : Settings) (json : Bool) (files : List String) :
    Outcome :=
  match files.head?.map w.read with
  | some (.ok (some _)) => .failed .cannotOpenStore
  | _ => (checkFiles g w settings json (files.take 1) none 0 "").1

/-- Runs `check`. -/
def runCheck (g : Registry) (w : Workspace) (files : List String) (json : Bool) (timeout : Binary64)
    (path : Option String) : Outcome × Workspace :=
  match settings timeout .basic defaultFixLimit with
  | .error fault => (.failed fault, w)
  | .ok s =>
    match path with
    | none => ((checkFiles g w s json files none 0 "").1, w)
    | some path =>
      if path = Workspace.passingStore then (checkPassing g w s json files, w)
      else
        match w.openStore path with
        | .error fault => (.failed fault, w)
        | .ok (path, store) =>
          -- The file of the store is there from now on.
          let w := w.keepStore path store
          let cache := Cache.ofStore defaultCapacity (some store)
          let (outcome, cache) := checkFiles g w s json files (some cache) 0 ""
          (outcome, w.keepStore path ((cache.bind (·.store)).getD store))

/-- Runs `structure`. -/
def runOutline (g : Registry) (w : Workspace) (file : String) (detail : Detail) (json : Bool)
    (timeout : Binary64) : Except Fault (Nat × String) := do
  let s ← settings timeout detail defaultFixLimit
  withFile w file fun source => do
    let r ← g.analyze s detail source
    let o := r.outlineOr detail
    let text ← if json then .ok (document (dropNulls (o.toDatum r.diagnostics)))
      else outlineText o r.diagnostics
    return (exitOf r.diagnostics, text)

/-- Runs `diagnose`. -/
def runDiagnose (g : Registry) (w : Workspace) (message : String) (source : Option String) (json : Bool) :
    Except Fault (Nat × String) := do
  let explain (source : Option String) : Except Fault (Nat × String) := do
    let d ← g.diagnose Settings.standard message source
    return (0, ← if json then .ok (document (diagnosisDocument d)) else diagnosisText d)
  match source with
  | none => explain none
  | some path => withFile w path fun text => explain (some text)

/-- Runs `fixes`. -/
def runFixes (g : Registry) (w : Workspace) (file : String) (limit : Int) (json : Bool) :
    Except Fault (Nat × String) := do
  let s ← settings defaultTimeout .basic limit
  withFile w file fun source => do
    let r ← g.analyze s .basic source
    let text ←
      if json then .ok (document (.list (r.quickFixes.map Diagnostic.toDatum)))
      else if r.quickFixes.isEmpty then Console.line "[green]No fixes to suggest.[/green]"
      else fixesText file 1 r.quickFixes
    return (if r.valid then 0 else 1, text)

/-- Runs a command on the files of a workspace. -/
def runCommand (g : Registry) (w : Workspace) : Command → Outcome × Workspace
  | .check files json timeout store => runCheck g w files json timeout store
  | .outline file detail json timeout => (outcomeOf (runOutline g w file detail json timeout), w)
  | .diagnose message source json => (outcomeOf (runDiagnose g w message source json), w)
  | .fixes file limit json => (outcomeOf (runFixes g w file limit json), w)

/-- Runs a call on the files of a workspace. -/
def run (g : Registry) (w : Workspace) (args : List String) : Outcome × Workspace :=
  match readCall args with
  | .misused => (.misused, w)
  | .help => (.finished 0 "", w)
  | .command command => runCommand g w command

end CommandLine

end Patchbay
