import Patchbay.Scope.Resolution

/-!
# What names mean

The meaning of a name depends on the scopes around it. An environment lists them from the innermost outwards, each as
a function from names to symbols; in one scope the first symbol of a name counts. `occurrences` lists the
names and calls of a box, each with the environment it stands in:

* a block opens a scope of its local definitions, around its body and around these definitions;
* a definition opens a scope of its parameters, around its body;
* an iteration opens a scope of its variable, around its body and not around its count.

Definitions that are invalid or have no body hold no occurrences, and the variable of an iteration is not one.
`repeats` lists the findings of names that are bound again in their scope.
-/

namespace Patchbay.Lexical

open Resolver

/-! ## Environments -/

/-- What a scope binds. -/
abbrev Frame := String → Option Symbol

/-- A scope of symbols; the first one of a name counts. -/
def Frame.ofSymbols (symbols : List Symbol) : Frame := fun name => symbols.find? (·.name == name)

/-- Scopes, innermost first. -/
abbrev Env := List Frame

/-- The innermost symbol of a name. -/
def Env.lookup (env : Env) (name : String) : Option Symbol := env.findSome? fun frame => frame name

/-- The symbols of definitions. -/
def definitionFrame (definitions : List Definition) : Frame :=
  .ofSymbols (definitions.map definitionSymbol)

/-- The symbols of the parameters of a definition at a place. -/
def parameterFrame (params : List String) (site : Position) : Frame :=
  .ofSymbols (params.map fun param => variableSymbol param site)

/-- The symbol of the variable of an iteration. -/
def variableFrame : Box → Frame
  | .ref mark name => .ofSymbols [variableSymbol name mark.position]
  | _ => .ofSymbols []

/-! ## Libraries -/

/-- The libraries that a program imports, in the order of its imports, and whether one of them is unknown. -/
structure Imports where
  libraries : List Library
  failed : Bool

/-- The imports of a program. -/
def Imports.ofProgram (available : Libraries) (p : Program) : Imports :=
  ⟨p.imports.filterMap fun i => available.get? i.path, p.imports.any fun i => !available.contains i.path⟩

/-- The symbol of a dotted name in a library: the library has the name, or it owns the prefix `head`. -/
def librarySymbol? (head name : String) (library : Library) : Option Symbol :=
  match library.symbols.get? name with
  | some entry =>
    some { name, kind := .imported, arity := some entry.arity, library := some library.name,
           delay := entry.delay }
  | none =>
    if library.namespaces.contains head then some { name, kind := .imported, library := some library.name }
    else none

/-- The symbol of a dotted name that no scope binds: that of the first library that has the name or owns its
prefix. If none does but an import failed, the name may belong to that one, with an unknown arity. -/
def Imports.symbol? (imports : Imports) (name : String) : Option Symbol :=
  match dottedPrefix? name with
  | none => none
  | some head =>
    match imports.libraries.findSome? (librarySymbol? head name) with
    | some symbol => some symbol
    | none => if imports.failed then some { name, kind := .imported } else none

/-- The symbol that a name stands for: the innermost binding, or else that of a library. -/
def meaning? (imports : Imports) (env : Env) (name : String) : Option Symbol :=
  match env.lookup name with
  | some symbol => some symbol
  | none => imports.symbol? name

/-! ## Occurrences -/

/-- A name or a call, and the scopes around it. -/
structure Occurrence where
  mark : Mark
  name : String
  env : Env

/-- What an occurrence stands for. -/
def Occurrence.meaning? (imports : Imports) (o : Occurrence) : Option Symbol :=
  Lexical.meaning? imports o.env o.name

/-- Whether a call is an iteration: an iteration form that nothing shadows, with a name, a count and a
body. -/
def isIteration (env : Env) (name : String) (args : List Box) : Bool :=
  match args with
  | [.ref _ _, _, _] => iterations.contains name && (env.lookup name).any fun s => s.kind == .primitive
  | _ => false

mutual

/-- The occurrences in a box. -/
def occurrences (env : Env) : Box → List Occurrence
  | .ref mark name => [⟨mark, name, env⟩]
  | .number _ _ _ => []
  | .string _ _ => []
  | .compose _ _ left right => occurrences env left ++ occurrences env right
  | .block _ body locals =>
    occurrences (definitionFrame locals :: env) body
      ++ definitionsOccurrences (definitionFrame locals :: env) locals
  | .call mark name args =>
    ⟨mark, name, env⟩ ::
      if isIteration env name args then iterationOccurrences env args else occurrencesAll env args

/-- The occurrences in boxes. -/
def occurrencesAll (env : Env) : List Box → List Occurrence
  | [] => []
  | b :: bs => occurrences env b ++ occurrencesAll env bs

/-- The occurrences in the count and in the body of an iteration. -/
def iterationOccurrences (env : Env) : List Box → List Occurrence
  | [binder, count, body] => occurrences env count ++ occurrences (variableFrame binder :: env) body
  | _ => []

/-- The occurrences in a definition. -/
def definitionOccurrences (env : Env) : Definition → List Occurrence
  | ⟨_, _, _, none, _⟩ => []
  | ⟨mark, _, params, some body, _⟩ =>
    if mark.invalid then [] else occurrences (parameterFrame params mark.position :: env) body

/-- The occurrences in definitions. -/
def definitionsOccurrences (env : Env) : List Definition → List Occurrence
  | [] => []
  | d :: ds => definitionOccurrences env d ++ definitionsOccurrences env ds

end

/-! ## Names bound twice -/

/-- The findings of symbols that are bound in a scope one after another, each at its place: a symbol
whose name an earlier one has is reported with the site of the first. -/
def repeats (earlier : List Symbol) : List (Symbol × Position) → List Finding
  | [] => []
  | (symbol, position) :: rest =>
    match Frame.ofSymbols earlier symbol.name with
    | some first => ⟨position, .duplicateName symbol.name first.site⟩ :: repeats earlier rest
    | none => repeats (earlier ++ [symbol]) rest

/-- The symbols of definitions with their places. -/
def definitionEntries (definitions : List Definition) : List (Symbol × Position) :=
  definitions.map fun d => (definitionSymbol d, d.position)

/-- The symbols of the parameters of a definition with its place. -/
def parameterEntries (params : List String) (site : Position) : List (Symbol × Position) :=
  params.map fun param => (variableSymbol param site, site)

mutual

/-- The names bound twice in a scope of a box. -/
def boxRepeats : Box → List Finding
  | .ref _ _ => []
  | .number _ _ _ => []
  | .string _ _ => []
  | .compose _ _ left right => boxRepeats left ++ boxRepeats right
  | .block _ body locals =>
    repeats [] (definitionEntries locals) ++ (boxRepeats body ++ definitionsRepeats locals)
  | .call _ _ args => boxesRepeats args

/-- The names bound twice in a scope of boxes. -/
def boxesRepeats : List Box → List Finding
  | [] => []
  | b :: bs => boxRepeats b ++ boxesRepeats bs

/-- The names bound twice in a scope of a definition. -/
def definitionRepeats : Definition → List Finding
  | ⟨_, _, _, none, _⟩ => []
  | ⟨mark, _, params, some body, _⟩ =>
    if mark.invalid then [] else repeats [] (parameterEntries params mark.position) ++ boxRepeats body

/-- The names bound twice in a scope of definitions. -/
def definitionsRepeats : List Definition → List Finding
  | [] => []
  | d :: ds => definitionRepeats d ++ definitionsRepeats ds

end

/-! ## Programs -/

/-- The outermost environment: the definitions of the program inside the built-in boxes. -/
def programEnv (primitives : Primitives) (p : Program) : Env :=
  [definitionFrame p.definitions, (builtinBindings primitives).get?]

/-- The occurrences in the valid definitions of a program. -/
def programOccurrences (primitives : Primitives) (p : Program) : List Occurrence :=
  definitionsOccurrences (programEnv primitives p) p.definitions

/-- The names bound twice in a scope of a program. -/
def programRepeats (p : Program) : List Finding :=
  repeats [] (definitionEntries p.definitions) ++ definitionsRepeats p.definitions

end Patchbay.Lexical
