import Patchbay.Fault
import Patchbay.Number.Writing
import Patchbay.Program

/-!
# Writing programs

A phrase is a piece of program text given by its parts; tools that assemble text may put any phrase in
any place. Parentheses are added where a composition or a block is an operand, except along a run of one
operator to the left, since every operator associates to the left.
-/

namespace Patchbay

/-- A piece of program text, by its parts. -/
inductive Phrase where
  | name (text : String)
  | number (value : Binary64) (text : String)
  | string (value : String)
  | call (name : String) (args : List Phrase)
  | compose (op : Operator) (left right : Phrase)
  | block (body : Phrase) (locals : List Phrase)
  | definition (name : String) (params : List String) (body : Option Phrase)
  | importing (path : String)
  | declaration (key value : String)
  | program (parts : List Phrase)
  /-- A part that has no text. -/
  | blank
deriving Repr, Inhabited

namespace Phrase

/-- A backslash is doubled and a quote gets one in front. -/
def escaped (c : Char) : List Char :=
  if c = '\\' then ['\\', '\\'] else if c = '"' then ['\\', '"'] else [c]

/-- A string literal. -/
def quote (value : String) : String :=
  String.ofList ('"' :: (value.toList.flatMap escaped ++ ['"']))

/-- A number as it was written, or, without a text, all digits of a whole number and the shortest text of
any other. -/
def numberText (value : Binary64) (text : String) : String :=
  if text ≠ "" then text
  else
    match value.toInt? with
    | some n => toString n
    | none => Number.shortest value

/-- Whether a phrase is a composition by this operator. -/
def composedBy (op : Operator) : Phrase → Bool
  | .compose other _ _ => other = op
  | _ => false

/-- Whether a phrase is put in parentheses as an operand. -/
def bracketedOperand : Phrase → Bool
  | .compose _ _ _ => true
  | .block _ _ => true
  | _ => false

/-- Whether a phrase is put in parentheses as an argument, where a comma would separate. -/
def bracketedArgument : Phrase → Bool
  | .compose .par _ _ => true
  | .block _ _ => true
  | _ => false

/-- A text, in parentheses if told so. -/
def bracket (brackets : Bool) (text : String) : String :=
  if brackets then "(" ++ text ++ ")" else text

/-- The parameters of a definition, in parentheses if there are any. -/
def paramsText (params : List String) : String :=
  if params.isEmpty then "" else "(" ++ ", ".intercalate params ++ ")"

mutual

/-- The text of a phrase. -/
def text : Phrase → String
  | .name word => word
  | .number value written => numberText value written
  | .string value => quote value
  | .call head args => head ++ "(" ++ ", ".intercalate (argumentTexts args) ++ ")"
  | .compose op left right =>
    -- A run of one operator to the left needs no parentheses.
    bracket (bracketedOperand left && !composedBy op left) left.text ++ " " ++ op.symbol ++ " "
      ++ bracket (bracketedOperand right) right.text
  | .block body locals => body.text ++ " with \x7b " ++ " ".intercalate (texts locals) ++ " \x7d"
  | .definition head params none => head ++ paramsText params ++ " = ;"
  | .definition head params (some body) => head ++ paramsText params ++ " = " ++ body.text ++ ";"
  | .importing path => "import(" ++ quote path ++ ");"
  | .declaration key value => "declare " ++ key ++ " " ++ quote value ++ ";"
  | .program parts => "\n".intercalate (texts parts) ++ "\n"
  | .blank => ""

/-- The texts of phrases. -/
def texts : List Phrase → List String
  | [] => []
  | p :: ps => p.text :: texts ps

/-- The texts of arguments. -/
def argumentTexts : List Phrase → List String
  | [] => []
  | p :: ps => bracket (bracketedArgument p) p.text :: argumentTexts ps

end

mutual

/-- Why a phrase cannot be written: a number without text that is not finite, or a part without text.
Of several reasons the one furthest to the right counts. -/
def fault? : Phrase → Option Fault
  | .number value written =>
    if written ≠ "" then none
    else
      match value with
      | .finite _ _ => none
      | .infinite _ => some .infiniteCount
      | .nan => some .undefinedCount
  | .call _ args => faults? args
  | .compose _ left right => right.fault? <|> left.fault?
  | .block body locals => faults? locals <|> body.fault?
  | .definition _ _ (some body) => body.fault?
  | .program parts => faults? parts
  | .blank => some .wrongType
  | _ => none

/-- Why one of several phrases cannot be written. -/
def faults? : List Phrase → Option Fault
  | [] => none
  | p :: ps => faults? ps <|> p.fault?

end

/-- The text of a phrase, if it can be written. -/
def render (p : Phrase) : Except Fault String :=
  match p.fault? with
  | some fault => .error fault
  | none => .ok p.text

end Phrase

mutual

/-- The phrase of a box. -/
def Box.phrase : Box → Phrase
  | .ref _ name => .name name
  | .number _ value text => .number value text
  | .string _ value => .string value
  | .call _ name args => .call name (Box.phrases args)
  | .compose _ op left right => .compose op left.phrase right.phrase
  | .block _ body locals => .block body.phrase (Definition.phrases locals)

/-- The phrases of boxes. -/
def Box.phrases : List Box → List Phrase
  | [] => []
  | b :: bs => b.phrase :: Box.phrases bs

/-- The phrase of a definition. -/
def Definition.phrase : Definition → Phrase
  | ⟨_, name, params, none, _⟩ => .definition name params none
  | ⟨_, name, params, some body, _⟩ => .definition name params (some body.phrase)

/-- The phrases of definitions. -/
def Definition.phrases : List Definition → List Phrase
  | [] => []
  | d :: ds => d.phrase :: Definition.phrases ds

end

/-- The phrase of a program: imports, then declarations, then definitions. -/
def Program.phrase (p : Program) : Phrase :=
  .program (p.imports.map (fun i => .importing i.path)
    ++ p.declarations.map (fun d => .declaration d.key d.value) ++ Definition.phrases p.definitions)

/-- The text of a program. -/
def Program.render (p : Program) : Except Fault String := p.phrase.render

end Patchbay
