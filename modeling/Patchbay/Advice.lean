import Patchbay.Advice.Pattern
import Patchbay.Advice.Template
import Patchbay.Diagnostic

/-!
# Advice

A rule gives advice on diagnostics of its kind whose message matches its pattern and that meet its
condition. Rules are tried in order, and the first one that applies decides. Its template is filled in with
the data of the diagnostic and the named parts of the match.
-/

namespace Patchbay

/-- What a rule asks of a diagnostic beyond kind and message. -/
inductive Condition where
  | always
  | mismatch (subtype : Mismatch)
  /-- In sequence, and the outputs could be merged into the inputs. -/
  | mergeFits
  /-- In sequence, and the outputs could be split over the inputs. -/
  | splitFits
deriving DecidableEq, Repr, Inhabited

/-- A rule of the advice table. -/
structure Rule where
  id : String
  kind : DiagnosticKind
  pattern : Pattern
  template : String
  condition : Condition
deriving DecidableEq, Repr, Inhabited

/-- Rules by name, in the order in which they are tried. -/
abbrev Rules := Table String Rule

/-! ## Conditions -/

/-- A number of data in units of doubles: none if it is no number, `some none` if it is not finite. -/
def Datum.units? : Datum → Option (Option Int)
  | .int n => some (some (n * Binary64.one))
  | .bool b => some (some (if b then Binary64.one else 0))
  | .float (.finite negative units) => some (some (Binary64.signedUnits negative units))
  | .float _ => some none
  | _ => none

/-- Whether a datum is a number above zero. -/
def Datum.isPositive : Datum → Bool
  | .float (.infinite negative) => !negative
  | datum =>
    match datum.units? with
    | some (some units) => decide (0 < units)
    | _ => false

/-- Whether `part` is positive, less than `whole`, and divides it. What is no number is a fault as soon as
it is compared; nothing divides by or into what is not finite. -/
def dividesProperly (part whole : Datum) : Except Fault Bool :=
  match part.units? with
  | none => .error .wrongType
  | some p =>
    if part.isPositive then
      match whole.units?, p with
      | none, _ => .error .wrongType
      | some (some w), some p => .ok (decide (p < w) && w % p == 0)
      | some _, _ => .ok false
    else .ok false

/-- Whether a diagnostic meets a condition. -/
def Condition.holds (c : Condition) (d : Diagnostic) : Except Fault Bool :=
  let outputs := (d.data.get? "outputs").getD (.int 0)
  let inputs := (d.data.get? "inputs").getD (.int 0)
  match c with
  | .always => .ok true
  | .mismatch subtype => .ok (d.subtype == some subtype)
  | .mergeFits => if d.subtype = some .sequential then dividesProperly inputs outputs else .ok false
  | .splitFits => if d.subtype = some .sequential then dividesProperly outputs inputs else .ok false

/-! ## Rules -/

/-- The advice of a rule on a diagnostic, if it applies. -/
def Rule.advise (rule : Rule) (d : Diagnostic) : Except Fault (Option String) :=
  if d.kind ≠ rule.kind then .ok none
  else
    match rule.pattern.find? d.message with
    | none => .ok none
    | some parts =>
      match rule.condition.holds d with
      | .error fault => .error fault
      | .ok false => .ok none
      | .ok true =>
        -- A named part of the match hides data of the same name.
        let values := parts.map (fun (name, text) => (name, Datum.text text)) ++ d.data.entries
        (Template.fill rule.template values).map some

/-- The advice of the first rule that applies. -/
def adviseFrom (d : Diagnostic) : List Rule → Except Fault (Option String)
  | [] => .ok none
  | rule :: rules =>
    match rule.advise d with
    | .ok none => adviseFrom d rules
    | other => other

/-- The advice of a table of rules. -/
def Rules.advise (rules : Rules) (d : Diagnostic) : Except Fault (Option String) :=
  adviseFrom d rules.values

/-- The diagnostic with advice, unless it proposes something already or no rule applies. -/
def Rules.annotate (rules : Rules) (d : Diagnostic) : Except Fault Diagnostic :=
  if d.hasSuggestion then .ok d
  else
    match rules.advise d with
    | .error fault => .error fault
    | .ok none => .ok d
    | .ok (some advice) => .ok { d with suggestion := some advice }

/-! ## The table -/

/-- A run between single quotes, under a name. -/
def quotedRun (before name after : String) : List PatternPiece :=
  [.exact (before ++ "'"), .upTo name '\'', .exact ("'" ++ after)]

/-- The rules of the advice table, in order. -/
def standardRuleList : List Rule :=
  [⟨"unexpected_character", .lexical, .ofPieces [.exact "Unexpected character ", .lastLine "quoted"],
    "Remove or replace the character \x7bquoted\x7d", .always⟩,
   ⟨"unterminated_string", .lexical, .ofExact "Unterminated string",
    "Close the string with a matching '\"'", .always⟩,
   ⟨"missing_semicolon", .grammar, .ofExact "Expected ';'", "Add ';' at the end of the statement", .always⟩,
   ⟨"unclosed_parenthesis", .grammar, .ofExact "Expected ')'", "Add the missing ')'", .always⟩,
   ⟨"unclosed_brace", .grammar, .ofExact "Unclosed '\x7b'",
    "Add the missing '\x7d' to close the 'with' block", .always⟩,
   ⟨"unmatched_bracket", .grammar, .ofPieces [.exact "Unmatched '", .character "bracket", .exact "'"],
    "Remove the extra '\x7bbracket\x7d'", .always⟩,
   ⟨"missing_equals", .grammar, .ofPieces (quotedRun "Expected '=' in definition of " "name" ""),
    "Write the definition as '\x7bname\x7d = expression;'", .always⟩,
   ⟨"empty_arguments", .grammar, .ofPieces (quotedRun "Empty argument list in call to " "name" ""),
    "Use '\x7bname\x7d' without parentheses or pass its arguments", .always⟩,
   ⟨"undefined_symbol", .undefined, .ofPieces (quotedRun "Undefined symbol " "name" ""),
    "Define '\x7bname\x7d' or import the library that provides it", .always⟩,
   ⟨"circular_definition", .circular, .ofExact "Circular definition",
    "Break the cycle; express feedback with the '~' operator instead", .always⟩,
   ⟨"sequential_merge", .dimension, .atStart "Sequential",
    "Use ':>' to merge the \x7boutputs\x7d signals into \x7binputs\x7d", .mergeFits⟩,
   ⟨"sequential_split", .dimension, .atStart "Sequential",
    "Use '<:' to distribute the \x7boutputs\x7d signal(s) over \x7binputs\x7d inputs", .splitFits⟩,
   ⟨"sequential", .dimension, ⟨false, [[.exact "Sequential"], [.exact "seq()"]]⟩,
    "Make A produce \x7binputs\x7d output(s) or B accept \x7boutputs\x7d input(s)", .mismatch .sequential⟩,
   ⟨"split", .dimension, .atStart "Split",
    "Give B a multiple of \x7boutputs\x7d inputs, or use ':' when the counts match", .mismatch .split⟩,
   ⟨"merge", .dimension, .atStart "Merge",
    "Give B a number of inputs that divides \x7boutputs\x7d, or use ':' when the counts match",
    .mismatch .merge⟩,
   ⟨"recursive", .dimension, .atStart "Recursive",
    "The feedback box B must take at most outputs(A) signals and return at most inputs(A)",
    .mismatch .recursive⟩,
   ⟨"call_arity", .dimension, .ofPieces (quotedRun "" "name" " accepts"),
    "Pass at most \x7binputs\x7d signal(s) to '\x7bname\x7d'", .always⟩,
   ⟨"ui_arguments", .dimension, .ofPieces (quotedRun "" "name" " expects"),
    "Call '\x7bname\x7d' with \x7bexpected\x7d arguments", .always⟩,
   ⟨"causality", .causality, .ofExact "contains no delay",
    "Insert a delay in the feedback path, e.g. 'B : mem' or B'", .always⟩,
   ⟨"min_above_max", .range, .ofExact "greater than max", "Swap the min and max arguments", .always⟩,
   ⟨"default_out_of_range", .range,
    .ofPieces [.exact "range [", .upTo "low" ',', .exact ", ", .upTo "high" ']', .exact "]"],
    "Choose a default between \x7blow\x7d and \x7bhigh\x7d", .always⟩,
   ⟨"duplicate_path", .path, .ofPieces (quotedRun "UI path " "path" ""),
    "Give each control a distinct label or place them in different groups", .always⟩,
   ⟨"duplicate_definition", .duplicate, .ofPieces (quotedRun "" "name" " is already defined"),
    "Rename or remove one of the definitions of '\x7bname\x7d'", .always⟩,
   ⟨"import_not_found", .library, .ofPieces (quotedRun "Library " "library" " not found"),
    "Check the library name; the standard libraries come from import(\"stdfaust.lib\");", .always⟩,
   ⟨"timeout", .timeout, .ofExact "",
    "Split the program into smaller files or raise the analysis timeout", .always⟩]

/-- The advice table. -/
def standardRules : Rules := ⟨standardRuleList.map fun r => (r.id, r), by decide +kernel⟩

end Patchbay
