import Patchbay.Diagnostic
import Patchbay.Dimension
import Patchbay.Number.Writing
import Patchbay.Text.Quoted
import Patchbay.Token

/-!
# Issues: the causes of diagnostics

Every diagnostic that the analysis raises has one of the causes below. The cause alone decides kind,
severity, wording and data; a finding adds the place and the places it is related to.
-/

namespace Patchbay

/-- What can be wrong with a program. -/
inductive Issue where
  -- reading tokens
  | unexpectedCharacter (c : Char)
  | unterminatedString
  | unterminatedComment
  -- reading statements
  | unmatchedBrace
  | unmatchedParenthesis
  | unexpectedStatement (token : Token)
  | missingSemicolon (after : String) (found : Option Token)
  | importWithoutParenthesis
  | importWithoutName
  | importUnclosed
  | malformedDeclaration
  | missingEquals (name : String) (found : Option Token)
  | expectedParameter (found : Option Token)
  | malformedParameters (found : Option Token)
  -- reading boxes
  | nestedTooDeeply (limit : Int)
  | unexpectedEnd
  | unexpectedToken (token : Token)
  | unclosedParenthesis (opening : Position) (found : Option Token)
  | emptyArguments (name : String)
  | malformedArguments (name : String) (opening : Position) (found : Option Token)
  | missingBrace (found : Option Token)
  | unexpectedLocal (token : Token)
  | unclosedBrace (opening : Position)
  -- binding names
  | unknownLibrary (path : String) (similar : Option String)
  | duplicateName (name : String) (first : Option Position)
  | undefinedName (name : String) (hint : Option String)
  -- sizing boxes
  | circularDefinition (cycle : List String) (defined : Position)
  | badComposition (op : Operator) (left right : Dimension)
  | tooManySignals (name : String) (inputs supplied : Nat)
  | argumentCount (name : String) (expected : Int) (got : Nat)
  | badChain (body : Dimension)
  | feedbackWithoutDelay
  -- checking controls
  | minimumAboveMaximum (label : String) (low high : Binary64) (initial : Option Binary64)
  | defaultOutsideRange (label : String) (low high initial : Binary64)
  | pathInUse (path : String) (first : Position)
  -- the analysis itself
  | outOfTime (seconds : Binary64)
deriving DecidableEq, Repr, Inhabited

/-- A number in a message: all digits of a whole number, six significant digits of any other. -/
def amount (value : Binary64) : String :=
  match value.toInt? with
  | some n => toString n
  | none => Number.general value

/-- A count in a message, in the plural unless it is one; a count that callers chose may be negative. -/
def pluralInt (count : Int) (word : String) : String :=
  if count = 1 then toString count ++ " " ++ word else toString count ++ " " ++ word ++ "s"

/-- Why two boxes cannot be composed. -/
def violation (op : Operator) (a b : Dimension) : String :=
  let counts :=
    "but A has " ++ plural a.outputs "output" ++ " and B has " ++ plural b.inputs "input"
  match op with
  | .seq => "Sequential composition A : B requires outputs(A) == inputs(B), " ++ counts
  | .split => "Split composition A <: B requires outputs(A) to divide inputs(B), " ++ counts
  | .merge =>
    "Merge composition A :> B requires outputs(A) to be a multiple of inputs(B), " ++ counts
  | _ =>
    "Recursive composition A ~ B requires outputs(A) >= inputs(B) and inputs(A) >= outputs(B), but A is "
      ++ a.text ++ " and B is " ++ b.text

namespace Issue

/-- Whether all counts in the message of an issue can be written. -/
def isWritable : Issue → Bool
  | .badComposition .recur left right => left.isWritable && right.isWritable
  | .badComposition _ left right => Number.isWritable left.outputs && Number.isWritable right.inputs
  | .tooManySignals _ inputs supplied => Number.isWritable inputs && Number.isWritable supplied
  | .badChain body => body.isWritable
  | _ => true

/-- The kind of diagnostic an issue gives. -/
def kind : Issue → DiagnosticKind
  | .unexpectedCharacter _ | .unterminatedString | .unterminatedComment => .lexical
  | .unmatchedBrace | .unmatchedParenthesis | .unexpectedStatement _ | .missingSemicolon _ _
  | .importWithoutParenthesis | .importWithoutName | .importUnclosed | .malformedDeclaration
  | .missingEquals _ _ | .expectedParameter _ | .malformedParameters _ | .nestedTooDeeply _
  | .unexpectedEnd | .unexpectedToken _ | .unclosedParenthesis _ _ | .emptyArguments _
  | .malformedArguments _ _ _ | .missingBrace _ | .unexpectedLocal _ | .unclosedBrace _ => .grammar
  | .unknownLibrary _ _ => .library
  | .duplicateName _ _ => .duplicate
  | .undefinedName _ _ => .undefined
  | .circularDefinition _ _ => .circular
  | .badComposition _ _ _ | .tooManySignals _ _ _ | .argumentCount _ _ _ | .badChain _ => .dimension
  | .feedbackWithoutDelay => .causality
  | .minimumAboveMaximum _ _ _ _ | .defaultOutsideRange _ _ _ _ => .range
  | .pathInUse _ _ => .path
  | .outOfTime _ => .timeout

/-- Feedback without delay is a warning, all else an error. -/
def severity : Issue → Severity
  | .feedbackWithoutDelay => .warning
  | _ => .error

/-- Where a dimension does not fit. -/
def subtype : Issue → Option Mismatch
  | .badComposition .seq _ _ => some .sequential
  | .badComposition .split _ _ => some .split
  | .badComposition .merge _ _ => some .merge
  | .badComposition .recur _ _ => some .recursive
  | .tooManySignals _ _ _ | .argumentCount _ _ _ => some .call
  | .badChain _ => some .sequential
  | _ => none

/-- The message of an issue. -/
def message : Issue → String
  | .unexpectedCharacter c => "Unexpected character " ++ String.ofList (Text.quoted [c])
  | .unterminatedString => "Unterminated string literal"
  | .unterminatedComment => "Unterminated block comment"
  | .unmatchedBrace => "Unmatched '\x7d'"
  | .unmatchedParenthesis => "Unmatched ')'"
  | .unexpectedStatement token => "Unexpected " ++ Token.describe (some token) ++ " at top level"
  | .missingSemicolon what _ => "Expected ';' after " ++ what
  | .importWithoutParenthesis => "Expected '(' after import"
  | .importWithoutName => "Expected library name as a string"
  | .importUnclosed => "Expected ')' after import path"
  | .malformedDeclaration => "Expected 'declare key \"value\";'"
  | .missingEquals name _ => "Expected '=' in definition of '" ++ name ++ "'"
  | .expectedParameter _ => "Expected parameter name"
  | .malformedParameters _ => "Expected ',' or ')' in parameter list"
  | .nestedTooDeeply _ => "Expression nested too deeply"
  | .unexpectedEnd => "Unexpected end of input, expected an expression"
  | .unexpectedToken token =>
    "Unexpected " ++ Token.describe (some token) ++ ", expected an expression"
  | .unclosedParenthesis opening _ =>
    "Expected ')' to close '(' opened at line " ++ toString opening.line ++ ", column "
      ++ toString opening.column
  | .emptyArguments name => "Empty argument list in call to '" ++ name ++ "'"
  | .malformedArguments name _ _ => "Expected ',' or ')' in call to '" ++ name ++ "'"
  | .missingBrace _ => "Expected '\x7b' after 'with'"
  | .unexpectedLocal token => "Unexpected " ++ Token.describe (some token) ++ " in 'with' block"
  | .unclosedBrace opening =>
    "Unclosed '\x7b' opened at line " ++ toString opening.line ++ ", column "
      ++ toString opening.column
  | .unknownLibrary path _ => "Library '" ++ path ++ "' not found"
  | .duplicateName name first =>
    "'" ++ name ++ "' is already defined"
      ++ match first with
        | some p => " at line " ++ toString p.line
        | none => ""
  | .undefinedName name _ => "Undefined symbol '" ++ name ++ "'"
  | .circularDefinition cycle _ =>
    "Circular definition: " ++ " -> ".intercalate (cycle ++ cycle.take 1)
  | .badComposition op left right => violation op left right
  | .tooManySignals name inputs supplied =>
    "'" ++ name ++ "' accepts " ++ plural inputs "input" ++ " but its arguments supply "
      ++ plural supplied "signal"
  | .argumentCount name expected got =>
    "'" ++ name ++ "' expects " ++ pluralInt expected "argument" ++ ", got " ++ toString got
  | .badChain body =>
    "seq() chains copies of a box with " ++ plural body.outputs "output" ++ " into "
      ++ plural body.inputs "input"
  | .feedbackWithoutDelay => "Feedback path of '~' contains no delay ('@', 'mem' or \"'\")"
  | .minimumAboveMaximum label low high _ =>
    "'" ++ label ++ "' has min " ++ amount low ++ " greater than max " ++ amount high
  | .defaultOutsideRange label low high initial =>
    "Default value " ++ amount initial ++ " of '" ++ label ++ "' is outside its range ["
      ++ amount low ++ ", " ++ amount high ++ "]"
  | .pathInUse path first => "UI path '" ++ path ++ "' is already used at line " ++ toString first.line
  | .outOfTime seconds => "Analysis did not finish within " ++ Number.general seconds ++ " seconds"

/-- What an issue proposes by itself, before any rule of the advice table is asked. -/
def proposal : Issue → Option String
  | .unterminatedComment => some "Close the comment with '*/'"
  | .unknownLibrary _ similar => similar.map fun path => "Did you mean import(\"" ++ path ++ "\");?"
  | .duplicateName name _ => some ("Rename or remove one of the definitions of '" ++ name ++ "'")
  | .undefinedName _ hint => hint
  | _ => none

/-- The places an issue is related to. -/
def related : Issue → List Position
  | .unclosedParenthesis opening _ => [opening]
  | .malformedArguments _ opening _ => [opening]
  | .unclosedBrace opening => [opening]
  | .duplicateName _ first => first.toList
  | .circularDefinition _ defined => [defined]
  | .pathInUse _ first => [first]
  | _ => []

/-- A pair of counts as data. -/
def counts (d : Dimension) : Datum := .list [.int d.inputs, .int d.outputs]

/-- What stands at a place, as data. -/
def found (token : Option Token) : String × Datum := ("found", .text (Token.describe token))

/-- The data of an issue. -/
def data : Issue → List (String × Datum)
  | .unexpectedCharacter c => [("char", .text c.toString)]
  | .unterminatedString => [("char", .text "\"")]
  | .unmatchedBrace => [("found", .text "\x7d")]
  | .unmatchedParenthesis => [("found", .text ")")]
  | .unexpectedStatement token => [("found", .text token.text)]
  | .missingSemicolon _ token => [("expected", .text ";"), found token]
  | .importWithoutParenthesis => [("expected", .text "(")]
  | .importWithoutName => [("expected", .text "string")]
  | .importUnclosed => [("expected", .text ")")]
  | .malformedDeclaration => [("expected", .text "string")]
  | .missingEquals _ token => [("expected", .text "="), found token]
  | .expectedParameter token => [found token]
  | .malformedParameters token => [found token]
  | .nestedTooDeeply limit => [("limit", .int limit)]
  | .unexpectedEnd => [("expected", .text "expression")]
  | .unexpectedToken token => [("expected", .text "expression"), ("found", .text token.text)]
  | .unclosedParenthesis _ token => [("expected", .text ")"), found token]
  | .malformedArguments _ _ token => [("expected", .text ")"), found token]
  | .missingBrace token => [("expected", .text "\x7b"), found token]
  | .unexpectedLocal token => [("found", .text token.text)]
  | .unclosedBrace _ => [("expected", .text "\x7d")]
  | .unknownLibrary path _ => [("library", .text path)]
  | .duplicateName name _ => [("name", .text name)]
  | .undefinedName name _ => [("name", .text name)]
  | .circularDefinition cycle _ => [("cycle", .list (cycle.map .text))]
  | .badComposition op left right =>
    [("operator", .text op.symbol), ("outputs", .int left.outputs), ("inputs", .int right.inputs),
     ("left", counts left), ("right", counts right)]
  | .tooManySignals name inputs supplied =>
    [("name", .text name), ("outputs", .int supplied), ("inputs", .int inputs)]
  | .argumentCount name expected got =>
    [("name", .text name), ("expected", .int expected), ("got", .int got)]
  | .badChain body =>
    [("operator", .text ":"), ("outputs", .int body.outputs), ("inputs", .int body.inputs)]
  | .feedbackWithoutDelay => [("operator", .text "~")]
  | .minimumAboveMaximum label low high initial =>
    [("label", .text label), ("min", .float low), ("max", .float high),
     ("default", Datum.ofOption .float initial)]
  | .defaultOutsideRange label low high initial =>
    [("label", .text label), ("min", .float low), ("max", .float high), ("default", .float initial)]
  | .pathInUse path _ => [("path", .text path)]
  | .outOfTime seconds => [("timeout_seconds", .float seconds)]
  | .unterminatedComment | .emptyArguments _ => []

theorem nodup_data (i : Issue) : (i.data.map (·.1)).Nodup := by
  cases i <;> simp [data, found]

end Issue

/-- An issue at a place. -/
structure Finding where
  position : Position
  issue : Issue
deriving DecidableEq, Repr, Inhabited

/-- The diagnostic of a finding. -/
def Finding.toDiagnostic (f : Finding) : Diagnostic where
  kind := f.issue.kind
  severity := f.issue.severity
  position := f.position
  message := f.issue.message
  subtype := f.issue.subtype
  suggestion := f.issue.proposal
  related := f.issue.related
  data := ⟨f.issue.data, f.issue.nodup_data⟩

end Patchbay
