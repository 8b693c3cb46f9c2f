/-!
# Arguments of a command

An argument is an option, the value of the option before it, or an operand. Long options may have their
value attached by `=`, short ones directly, and short ones without values may stand together. After `--`
everything is an operand.
-/

namespace Patchbay

/-- An option of a command. -/
structure Switch where
  /-- What it is called in results. -/
  key : String
  names : List String
  takesValue : Bool
deriving DecidableEq, Repr, Inhabited

/-- Arguments told apart. -/
structure Arguments where
  /-- Options with their values, in order; empty values for options that take none. -/
  options : List (String × String)
  operands : List String
deriving DecidableEq, Repr, Inhabited

namespace Arguments

/-- The last value given for an option. -/
def value? (a : Arguments) (key : String) : Option String :=
  (a.options.reverse.find? fun o => o.1 == key).map (·.2)

/-- Whether an option was given. -/
def has (a : Arguments) (key : String) : Bool := (a.value? key).isSome

/-- The option with a name. -/
def find? (switches : List Switch) (name : String) : Option Switch :=
  switches.find? fun s => s.names.contains name

/-- Reads a long option: its key and value, or the key of an option whose value comes next. -/
def readLong (switches : List Switch) (cs : List Char) : Option (List (String × String) × Option String) :=
  match find? switches (String.ofList (cs.takeWhile (· ≠ '='))), cs.dropWhile (· ≠ '=') with
  | none, _ => none
  | some s, [] => some (if s.takesValue then ([], some s.key) else ([(s.key, "")], none))
  | some s, _ :: value => if s.takesValue then some ([(s.key, String.ofList value)], none) else none

/-- Reads short options that stand together, in the same way. -/
def readShort (switches : List Switch) : List Char → Option (List (String × String) × Option String)
  | [] => some ([], none)
  | c :: cs =>
    match find? switches (String.ofList ['-', c]) with
    | none => none
    | some s =>
      if s.takesValue then
        some (if cs.isEmpty then ([], some s.key) else ([(s.key, String.ofList cs)], none))
      else (readShort switches cs).map fun (given, pending) => ((s.key, "") :: given, pending)

/-- Reads an argument that starts with a hyphen. -/
def readSwitch (switches : List Switch) (arg : List Char) :
    Option (List (String × String) × Option String) :=
  match arg with
  | '-' :: '-' :: _ => readLong switches arg
  | _ => readShort switches (arg.drop 1)

/-- Whether an argument is an option: a hyphen and more. -/
def isSwitch : List Char → Bool
  | '-' :: _ :: _ => true
  | _ => false

/-- Tells arguments apart; none if an option is unknown or lacks its value. `pending` is the option whose
value comes next. If options and operands are not mixed, the first operand ends the options. -/
def read (switches : List Switch) (mixed : Bool) :
    (pending : Option String) → List String → Option Arguments
  | none, [] => some ⟨[], []⟩
  | some _, [] => none
  | some key, arg :: args =>
    (read switches mixed none args).map fun a => { a with options := (key, arg) :: a.options }
  | none, arg :: args =>
    if arg = "--" then some ⟨[], args⟩
    else if isSwitch arg.toList then
      match readSwitch switches arg.toList with
      | none => none
      | some (given, pending) =>
        (read switches mixed pending args).map fun a => { a with options := given ++ a.options }
    else if mixed then
      (read switches mixed none args).map fun a => { a with operands := arg :: a.operands }
    else some ⟨[], arg :: args⟩

end Arguments

end Patchbay
