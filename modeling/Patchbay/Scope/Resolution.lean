import Patchbay.Issue
import Patchbay.Library.Standard
import Patchbay.Scope
import Patchbay.Text.Identifier
import Patchbay.Text.Similarity

/-!
# Binding names

Every name in a valid definition is bound to the symbol it stands for, seen from the scope it occurs in.
The outermost scope holds the built-in boxes, the next one the definitions of the program; parameters,
local definitions and iteration variables open scopes of their own. Dotted names that no scope binds
belong to imported libraries.
-/

namespace Patchbay

/-- An import of the program, and whether its library is known. -/
structure ImportInfo where
  path : String
  line : Int
  found : Bool
deriving DecidableEq, Repr, Inhabited

/-- What the names of a program stand for. -/
structure Resolution where
  tree : ScopeTree
  /-- The symbol of each name and call, by the number of its node. -/
  bindings : Table Nat Symbol
  /-- How often each definition is referred to, by the number of its node. -/
  references : Table Nat Nat
  imports : List ImportInfo
  libraries : List Library
deriving Repr, Inhabited

namespace Resolution

/-- The scope of the built-in boxes. -/
def builtinScope : Nat := 0

/-- The scope of the definitions of the program. -/
def globalScope : Nat := 1

/-- The symbol of a node. -/
def symbol? (r : Resolution) (id : Nat) : Option Symbol := r.bindings.get? id

/-- How often a definition is referred to. -/
def referenceCount (r : Resolution) (d : Definition) : Nat := (r.references.get? d.id).getD 0

/-- The definition that a node refers to, if its symbol is one. -/
def userDefinition? (r : Resolution) (id : Nat) : Option Definition :=
  match r.symbol? id with
  | some symbol => if symbol.kind = .userDefined then symbol.definition else none
  | none => none

end Resolution

namespace Resolver

/-! ## Surroundings -/

/-- What names are resolved against. -/
structure Context where
  available : Libraries
  /-- Imported libraries, in the order of their imports. -/
  imported : List Library
  /-- Whether the library of some import is unknown. -/
  failedImport : Bool

/-- Scopes, bindings and findings so far. -/
structure State where
  tree : ScopeTree
  bindings : Table Nat Symbol
  references : Table Nat Nat
  findings : List Finding
deriving Inhabited

/-- The symbol of a built-in box. -/
def primitiveSymbol (name : String) (p : Primitive) : Symbol :=
  { name, kind := if p.isUi then .ui else .primitive, arity := p.arity, delay := p.delay }

/-- The names that are bound before any definition: built-in boxes and iteration forms. -/
def builtinBindings (primitives : Primitives) : Table String Symbol :=
  iterations.foldl (fun t name => t.insert name { name, kind := .primitive })
    (Table.ofList (primitives.entries.map fun (name, p) => (name, primitiveSymbol name p)))

/-- The advice to import the standard libraries. -/
def importAdvice : String := "add import(\"" ++ standardName ++ "\");"

/-! ## Imports -/

/-- The import of a library, with its finding if the library is unknown. -/
def importInfo (available : Libraries) (statement : Import) : ImportInfo :=
  ⟨statement.path, statement.mark.position.line, available.contains statement.path⟩

/-- The finding of an import whose library is unknown. -/
def importFinding? (available : Libraries) (statement : Import) : Option Finding :=
  if available.contains statement.path then none
  else
    some ⟨statement.mark.position,
      .unknownLibrary statement.path (Text.closest? ⟨3, 5⟩ statement.path available.keys)⟩

/-- Adds a library unless it is there already. -/
def addLibrary (libraries : List Library) (library : Library) : List Library :=
  if libraries.any (·.same library) then libraries else libraries ++ [library]

/-- The libraries that imports make visible. -/
def importedLibraries (available : Libraries) (imports : List Import) : List Library :=
  (imports.filterMap fun i => available.get? i.path).foldl addLibrary []

/-! ## Names -/

/-- The symbol of a dotted name that no scope binds: the first imported library that has the name or owns
its prefix decides. If an import failed, any dotted name may belong to it. -/
def importedSymbol? (context : Context) (name : String) : Option Symbol :=
  match dottedPrefix? name with
  | none => none
  | some head =>
    let fromLibrary (library : Library) : Option Symbol :=
      match library.symbols.get? name with
      | some entry =>
        some { name, kind := .imported, arity := some entry.arity, library := some library.name,
               delay := entry.delay }
      | none =>
        if library.namespaces.contains head then
          some { name, kind := .imported, library := some library.name }
        else none
    match context.imported.findSome? fromLibrary with
    | some symbol => some symbol
    | none => if context.failedImport then some { name, kind := .imported } else none

/-- The least text of a list. -/
def least? : List String → Option String
  | [] => none
  | s :: rest => some (rest.foldl (fun a b => if b < a then b else a) s)

/-- Names of libraries that end in a point and the given name. -/
def qualifiedNames (available : Libraries) (name : String) : List String :=
  available.values.flatMap fun library =>
    library.symbols.keys.filter fun symbol => ('.' :: name.toList).isSuffixOf symbol.toList

/-- A hint at a name that was possibly meant: a similar one that is visible, else the first one of a
library that differs only by its prefix. -/
def didYouMean (context : Context) (tree : ScopeTree) (scope : Nat) (name : String) : Option String :=
  let visible := (tree.visibleNames (some scope)).filter fun n => Text.isIdentifier n.toList
  let candidates := visible ++ context.imported.flatMap fun library => library.symbols.keys
  match Text.closest? ⟨3, 4⟩ name candidates with
  | some similar => some ("Did you mean '" ++ similar ++ "'?")
  | none =>
    match least? (qualifiedNames context.available name) with
    | none => none
    | some qualified =>
      if context.imported.any fun library => library.symbols.contains qualified then
        some ("Did you mean '" ++ qualified ++ "'?")
      else some ("Did you mean '" ++ qualified ++ "'? (" ++ importAdvice ++ ")")

/-- A hint for a name that nothing binds. -/
def hint (context : Context) (tree : ScopeTree) (scope : Nat) (name : String) : Option String :=
  if (standardPrefix? name).isSome then some importAdvice else didYouMean context tree scope name

/-- The symbol of a name seen from a scope. -/
def symbolOf? (context : Context) (tree : ScopeTree) (scope : Nat) (name : String) : Option Symbol :=
  match tree.find? (some scope) name with
  | some symbol => some symbol
  | none => importedSymbol? context name

/-- Counts a reference to the definition of a symbol. -/
def countReference (references : Table Nat Nat) (symbol : Symbol) : Table Nat Nat :=
  match symbol.definition with
  | some d => references.insert d.id ((references.get? d.id).getD 0 + 1)
  | none => references

/-- Binds a node to what its name stands for, or reports that it stands for nothing. -/
def reference (context : Context) (scope : Nat) (mark : Mark) (name : String) (s : State) : State :=
  match symbolOf? context s.tree scope name with
  | some symbol =>
    { s with
      bindings := s.bindings.insert mark.id symbol
      references := countReference s.references symbol }
  | none =>
    { s with findings :=
        s.findings ++ [⟨mark.position, .undefinedName name (hint context s.tree scope name)⟩] }

/-! ## Scopes -/

/-- Opens a scope inside another; its place is the number of scopes before. -/
def State.openScope (s : State) (parent : Nat) : State := { s with tree := s.tree.add (some parent) }

/-- Binds a name in a scope, or reports at a place that the scope binds it already. -/
def bindNew (scope : Nat) (symbol : Symbol) (position : Position) (s : State) : State :=
  match s.tree.bound? scope symbol.name with
  | some existing =>
    { s with findings := s.findings ++ [⟨position, .duplicateName symbol.name existing.site⟩] }
  | none => { s with tree := s.tree.bind scope symbol }

/-- The symbol of a definition. -/
def definitionSymbol (d : Definition) : Symbol :=
  { name := d.name, kind := .userDefined, site := some d.position, definition := some d }

/-- Binds definitions in a scope, in order. -/
def bindDefinitions (scope : Nat) (definitions : List Definition) (s : State) : State :=
  definitions.foldl (fun s d => bindNew scope (definitionSymbol d) d.position s) s

/-- The symbol of a parameter or an iteration variable: a signal. -/
def variableSymbol (name : String) (site : Position) : Symbol :=
  { name, kind := .parameter, arity := some .signal, site := some site }

/-- Binds the parameters of a definition in a scope, in order. -/
def bindParameters (scope : Nat) (d : Definition) (s : State) : State :=
  d.params.foldl (fun s name => bindNew scope (variableSymbol name d.position) d.position s) s

/-- Whether a call is an iteration: an iteration form that nothing shadows, with a name, a count and a
body. -/
def isIteration (tree : ScopeTree) (scope : Nat) (name : String) (args : List Box) : Bool :=
  match args with
  | [.ref _ _, _, _] =>
    iterations.contains name
      && (tree.find? (some scope) name).any fun symbol => symbol.kind == .primitive
  | _ => false

mutual

/-- Resolves the names of a box seen from a scope. -/
def visitBox (context : Context) (scope : Nat) : Box → State → State
  | .ref mark name, s => reference context scope mark name s
  | .number _ _ _, s => s
  | .string _ _, s => s
  | .compose _ _ left right, s => visitBox context scope right (visitBox context scope left s)
  | .block _ body locals, s =>
    let inner := s.tree.size
    let s := bindDefinitions inner locals (s.openScope scope)
    visitDefinitions context inner locals (visitBox context inner body s)
  | .call mark name args, s =>
    if isIteration s.tree scope name args then
      -- The variable is visible in the body and not in the count.
      let inner := s.tree.size
      let s := s.openScope scope
      visitIteration context scope inner args (reference context scope mark name s)
    else visitBoxes context scope args (reference context scope mark name s)

/-- Resolves the names of boxes, one after another. -/
def visitBoxes (context : Context) (scope : Nat) : List Box → State → State
  | [], s => s
  | b :: bs, s => visitBoxes context scope bs (visitBox context scope b s)

/-- Resolves the names of the arguments of an iteration; its variable is bound in the scope `inner`. -/
def visitIteration (context : Context) (scope inner : Nat) : List Box → State → State
  | [binder, count, body], s =>
    let s := match binder with
      | .ref mark name => { s with tree := s.tree.bind inner (variableSymbol name mark.position) }
      | _ => s
    visitBox context inner body (visitBox context scope count s)
  | _, s => s

/-- Resolves the names of definitions, one after another. -/
def visitDefinitions (context : Context) (scope : Nat) : List Definition → State → State
  | [], s => s
  | d :: ds, s => visitDefinitions context scope ds (visitDefinition context scope d s)

/-- Resolves the names of a definition, unless it is invalid. Parameters have a scope of their own. -/
def visitDefinition (context : Context) (scope : Nat) : Definition → State → State
  | ⟨_, _, _, none, _⟩, s => s
  | ⟨mark, name, params, some body, stop⟩, s =>
    if mark.invalid then s
    else if params.isEmpty then visitBox context scope body s
    else
      let inner := s.tree.size
      let s := bindParameters inner ⟨mark, name, params, some body, stop⟩ (s.openScope scope)
      visitBox context inner body s

end

/-- The state before any definition is bound. -/
def start (primitives : Primitives) (findings : List Finding) : State :=
  ⟨⟨[⟨none, builtinBindings primitives⟩, ⟨some Resolution.builtinScope, .empty⟩]⟩, .empty, .empty,
    findings⟩

end Resolver

/-- Resolves the names of a program. -/
def Program.resolve (p : Program) (primitives : Primitives) (available : Libraries) :
    Resolution × List Finding :=
  let imports := p.imports.map (Resolver.importInfo available)
  let context : Resolver.Context :=
    { available
      imported := Resolver.importedLibraries available p.imports
      failedImport := imports.any fun i => !i.found }
  let s := Resolver.start primitives (p.imports.filterMap (Resolver.importFinding? available))
  let s := Resolver.bindDefinitions Resolution.globalScope p.definitions s
  let s := Resolver.visitDefinitions context Resolution.globalScope p.definitions s
  (⟨s.tree, s.bindings, s.references, imports, context.imported⟩, s.findings)

end Patchbay
