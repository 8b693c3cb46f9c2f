import Patchbay.Diagnostic
import Patchbay.Text.Case
import Patchbay.Text.Search

/-!
# Guides

A guide explains a kind of trouble that compilers report: what it means, where it comes from, and how to
mend it. The wording of a message decides which guide it belongs to.
-/

namespace Patchbay

/-- The kinds of trouble that have a guide. -/
inductive Trouble where
  | missingSemicolon
  | undefinedSymbol
  | unclosedParenthesis
  | missingProcess
  | rootDomain
  | logarithmDomain
  | divisionByZero
  | causality
  | unboundedRecursion
  | boxDimension
  | importFailed
  | unknown
deriving DecidableEq, Repr, Inhabited

namespace Trouble

/-- The name of a kind of trouble. -/
def name : Trouble → String
  | .missingSemicolon => "missing_semicolon"
  | .undefinedSymbol => "undefined_symbol"
  | .unclosedParenthesis => "unclosed_parenthesis"
  | .missingProcess => "missing_process"
  | .rootDomain => "domain_sqrt"
  | .logarithmDomain => "domain_log"
  | .divisionByZero => "division_by_zero"
  | .causality => "causality"
  | .unboundedRecursion => "unbounded_recursion"
  | .boxDimension => "box_dimension"
  | .importFailed => "import_failed"
  | .unknown => "unknown"

/-- All kinds of trouble. -/
def all : List Trouble :=
  [.missingSemicolon, .undefinedSymbol, .unclosedParenthesis, .missingProcess, .rootDomain,
   .logarithmDomain, .divisionByZero, .causality, .unboundedRecursion, .boxDimension, .importFailed,
   .unknown]

/-- The kind of trouble with this name. -/
def ofName? (name : String) : Option Trouble := all.find? fun t => t.name == name

/-! ## Wording -/

/-- What the wording of a message has to have: any one of several sets of words, each set whole. -/
abbrev Wording := List (List String)

/-- Whether a text, in lower case, has the wording. -/
def fits (wording : Wording) (cs : List Char) : Bool :=
  wording.any fun words => words.all fun word => Text.includes word.toList cs

/-- The wordings of the kinds of trouble, in the order in which they are tried. -/
def wordings : List (Trouble × Wording) :=
  [(.missingSemicolon, [["expected", "';'"]]),
   (.missingSemicolon, [["syntax error", "unexpected ident"]]),
   (.undefinedSymbol, [["undefined symbol"], ["is undefined"]]),
   (.unclosedParenthesis, [["expected", "')'"]]),
   (.missingProcess, [["process", "not defined"]]),
   (.rootDomain, [["domain", "sqrt"]]),
   (.logarithmDomain, [["domain", "log"]]),
   (.divisionByZero, [["division", "zero"]]),
   (.causality, [["causality"], ["zero-delay"], ["delay-free loop"]]),
   (.unboundedRecursion, [["recursive", "unbounded"]]),
   (.boxDimension,
    [["dimension"], ["mismatch"], ["incompatible"], ["number of outputs"], ["number of inputs"]]),
   (.importFailed, [["import", "failed"], ["import", "not found"]])]

/-- The kind of trouble that a message tells of. -/
def ofMessage (message : String) : Trouble :=
  let cs := Text.lowered message.toList
  ((wordings.find? fun w => fits w.2 cs).map (·.1)).getD .unknown

/-- The kind of trouble that a diagnostic is about: its kind decides, else its message. -/
def ofDiagnostic (kind : DiagnosticKind) (message : String) : Trouble :=
  match kind with
  | .undefined => .undefinedSymbol
  | .dimension => .boxDimension
  | .causality => .causality
  | .circular => .unboundedRecursion
  | .library => .importFailed
  | _ => ofMessage message

end Trouble

/-! ## Guides -/

/-- A program before and after it was mended. -/
structure FixExample where
  before : String
  after : String
deriving DecidableEq, Repr, Inhabited

/-- What can be said about a kind of trouble. -/
structure Guide where
  trouble : Trouble
  title : String
  diagnosis : String
  rootCause : String
  fixes : List String
  examples : List FixExample
deriving DecidableEq, Repr, Inhabited

/-- The guide for a kind of trouble. -/
def Trouble.guide : Trouble → Guide
  | .missingSemicolon =>
    { trouble := .missingSemicolon
      title := "Missing semicolon"
      diagnosis :=
        "A statement is not terminated by ';', so the next line is read as its continuation."
      rootCause :=
        "Every definition, import and declare statement must end with ';'."
      fixes :=
        ["Look at the reported line and the line before it",
         "Add ';' after the last token of the unfinished statement"]
      examples :=
        [⟨"freq = hslider(\"frequency\", 440, 20, 20000, 1)\nprocess = freq : sin;",
          "freq = hslider(\"frequency\", 440, 20, 20000, 1);\nprocess = freq : sin;"⟩,
         ⟨"myfilter(x) = x : cos\nprocess = myfilter;",
          "myfilter(x) = x : cos;\nprocess = myfilter;"⟩] }
  | .undefinedSymbol =>
    { trouble := .undefinedSymbol
      title := "Undefined symbol"
      diagnosis :=
        "A name is used that is neither defined in the program nor provided by an imported library."
      rootCause :=
        "The library is not imported, the name is misspelled, or the definition is missing."
      fixes :=
        ["Add import(\"stdfaust.lib\"); when the name has a library prefix such as os. or fi.",
         "Check the spelling against the library documentation",
         "Define the missing function"]
      examples :=
        [⟨"process = os.osc(440);",
          "import(\"stdfaust.lib\");\nprocess = os.osc(440);"⟩,
         ⟨"process = lowpass(4, 1000);",
          "import(\"stdfaust.lib\");\nprocess = fi.lowpass(4, 1000);"⟩] }
  | .unclosedParenthesis =>
    { trouble := .unclosedParenthesis
      title := "Unclosed parenthesis"
      diagnosis :=
        "An opening '(' has no matching ')'."
      rootCause :=
        "Parentheses in an expression or argument list are unbalanced."
      fixes :=
        ["Count opening and closing parentheses on the reported line",
         "Add the missing ')' before the terminating ';'"]
      examples :=
        [⟨"process = (_ , _ : +;",
          "process = (_ , _) : +;"⟩] }
  | .missingProcess =>
    { trouble := .missingProcess
      title := "Missing process definition"
      diagnosis :=
        "The program has no 'process' definition, which is its entry point."
      rootCause :=
        "'process' was never defined, or it is misspelled."
      fixes :=
        ["Define process = ...; as the main signal processor",
         "Check the spelling of 'process'"]
      examples :=
        [⟨"main = _ * 0.5;",
          "main = _ * 0.5;\nprocess = main;"⟩] }
  | .rootDomain =>
    { trouble := .rootDomain
      title := "sqrt domain violation"
      diagnosis :=
        "sqrt may receive a negative value."
      rootCause :=
        "The input range of sqrt includes values below zero."
      fixes :=
        ["Restrict the input range so its minimum is 0",
         "Apply abs or max(0) before sqrt"]
      examples :=
        [⟨"val = hslider(\"value\", 0.5, -1, 1, 0.1) : sqrt;",
          "val = hslider(\"value\", 0.5, 0, 1, 0.1) : sqrt;"⟩] }
  | .logarithmDomain =>
    { trouble := .logarithmDomain
      title := "log domain violation"
      diagnosis :=
        "log may receive zero or a negative value."
      rootCause :=
        "The input range of log includes values at or below zero."
      fixes :=
        ["Restrict the input range so its minimum is above 0",
         "Add a small epsilon before log"]
      examples :=
        [⟨"process = _ : log;",
          "process = _ : max(ma.EPSILON) : log;"⟩] }
  | .divisionByZero =>
    { trouble := .divisionByZero
      title := "Division by zero"
      diagnosis :=
        "A divisor can be zero."
      rootCause :=
        "The denominator's range includes 0."
      fixes :=
        ["Keep the denominator away from zero with max(ma.EPSILON)",
         "Change the control range so it excludes 0"]
      examples :=
        [⟨"g = hslider(\"g\", 1, 0, 2, 0.1);\nprocess = 1 / g;",
          "g = hslider(\"g\", 1, 0.01, 2, 0.01);\nprocess = 1 / g;"⟩] }
  | .causality =>
    { trouble := .causality
      title := "Causality violation"
      diagnosis :=
        "A feedback loop has no delay, so a sample would depend on itself."
      rootCause :=
        "The feedback path of '~' contains no '@', 'mem' or prime."
      fixes :=
        ["Insert mem or a prime (') in the feedback path",
         "Use an explicit delay such as @(1)"]
      examples :=
        [⟨"process = + ~ _;",
          "process = + ~ mem;"⟩,
         ⟨"process = + ~ (_ * 0.5);",
          "process = + ~ (_ * 0.5)';"⟩] }
  | .unboundedRecursion =>
    { trouble := .unboundedRecursion
      title := "Unbounded recursion"
      diagnosis :=
        "A recursive definition never reaches a base case."
      rootCause :=
        "A function refers to itself without terminating, instead of using '~' for feedback."
      fixes :=
        ["Express signal feedback with the '~' operator",
         "Use par/seq/sum/prod with a constant count for repetition"]
      examples :=
        [⟨"f = f : mem;",
          "f = _ ~ mem;"⟩] }
  | .boxDimension =>
    { trouble := .boxDimension
      title := "Box dimension mismatch"
      diagnosis :=
        "Two boxes are composed with incompatible numbers of inputs and outputs."
      rootCause :=
        "A ':' needs outputs(A) == inputs(B); '<:' needs outputs(A) to divide "
          ++ "inputs(B); ':>' needs outputs(A) to be a multiple of inputs(B)."
      fixes :=
        ["Count the inputs and outputs of each side of the composition",
         "Use ':>' to merge extra signals or '<:' to split a signal",
         "Rearrange the boxes with ',' where they should run in parallel"]
      examples :=
        [⟨"process = (_, _) : _;",
          "process = (_, _) :> _;"⟩,
         ⟨"process = _ : (_, _);",
          "process = _ <: (_, _);"⟩] }
  | .importFailed =>
    { trouble := .importFailed
      title := "Library import failed"
      diagnosis :=
        "An imported library file could not be found."
      rootCause :=
        "The library name is misspelled or not installed."
      fixes :=
        ["Import the standard libraries with import(\"stdfaust.lib\");",
         "Check the file name and the library search path"]
      examples :=
        [⟨"import(\"stdfaust.lb\");",
          "import(\"stdfaust.lib\");"⟩] }
  | .unknown =>
    { trouble := .unknown
      title := "Unrecognized error"
      diagnosis :=
        "The message does not match a known error category."
      rootCause :=
        "Undetermined from the message alone."
      fixes :=
        ["Check the line reported by the compiler and the line before it",
         "Analyze the source for syntax and dimension errors"]
      examples := [] }

end Patchbay
