import Patchbay.Control
import Patchbay.Text.Lines

/-!
# Outlines

An outline says what a program consists of: definitions with their dimensions, imports, controls and
declarations. A full one adds local definitions, which definitions nobody uses, and counts.
-/

namespace Patchbay

/-- How much an outline says. -/
inductive Detail where
  | basic
  | full
deriving DecidableEq, Repr, Inhabited

/-- The name of a level of detail. -/
def Detail.name : Detail → String
  | .basic => "basic"
  | .full => "full"

/-- All levels of detail. -/
def Detail.all : List Detail := [.basic, .full]

/-- The level of detail with this name. -/
def Detail.ofName? (name : String) : Option Detail := Detail.all.find? fun d => d.name == name

/-- A definition in an outline. -/
structure DefinitionInfo where
  name : String
  line : Int
  params : List String
  dimension : Option Dimension
  locals : List DefinitionInfo
deriving Repr, Inhabited

/-- A declaration in an outline. -/
structure DeclarationInfo where
  key : String
  value : String
  line : Int
deriving DecidableEq, Repr, Inhabited

/-- Counts of a text. -/
structure Metrics where
  lines : Int
  characters : Int
  tokens : Int
  identifiers : Int
  operators : Int
  numbers : Int
  strings : Int
deriving DecidableEq, Repr, Inhabited

/-- What a program consists of. -/
structure Outline where
  detail : Detail
  definitions : List DefinitionInfo
  imports : List ImportInfo
  controls : List Control
  declarations : List DeclarationInfo
  /-- Whether there is a main definition; only in full outlines. -/
  hasProcess : Option Bool
  /-- Definitions that nothing refers to, the main one apart; only in full outlines. -/
  unused : Option (List String)
  metrics : Option Metrics
deriving Repr, Inhabited

/-- The outline that says nothing. -/
def Outline.bare (detail : Detail) : Outline := ⟨detail, [], [], [], [], none, none, none⟩

/-- The paths of the controls. -/
def Outline.paths (o : Outline) : List String := o.controls.map (·.path)

/-- The first definition of a name. -/
def Outline.definition? (o : Outline) (name : String) : Option DefinitionInfo :=
  o.definitions.find? fun d => d.name == name

/-! ## Definitions -/

mutual

/-- The local definitions below a box that belong to no other local definition. -/
def Box.localInfos (dims : Table Nat Dimension) : Box → List DefinitionInfo
  | .ref _ _ => []
  | .number _ _ _ => []
  | .string _ _ => []
  | .call _ _ args => Box.localInfosAll dims args
  | .compose _ _ left right => left.localInfos dims ++ right.localInfos dims
  | .block _ body locals => Definition.fullInfos dims locals ++ body.localInfos dims

/-- The local definitions below boxes, one after another. -/
def Box.localInfosAll (dims : Table Nat Dimension) : List Box → List DefinitionInfo
  | [] => []
  | b :: bs => b.localInfos dims ++ Box.localInfosAll dims bs

/-- A definition with its local ones. -/
def Definition.fullInfo (dims : Table Nat Dimension) : Definition → DefinitionInfo
  | ⟨mark, name, params, none, _⟩ => ⟨name, mark.position.line, params, dims.get? mark.id, []⟩
  | ⟨mark, name, params, some body, _⟩ =>
    ⟨name, mark.position.line, params, dims.get? mark.id, body.localInfos dims⟩

/-- Definitions with their local ones. -/
def Definition.fullInfos (dims : Table Nat Dimension) : List Definition → List DefinitionInfo
  | [] => []
  | d :: ds => d.fullInfo dims :: Definition.fullInfos dims ds

end

/-- A definition without its local ones. -/
def Definition.basicInfo (dims : Table Nat Dimension) (d : Definition) : DefinitionInfo :=
  ⟨d.name, d.position.line, d.params, dims.get? d.id, []⟩

/-! ## The whole -/

/-- Counts of a text and its tokens. -/
def Metrics.of (tokens : List Token) (source : String) : Metrics :=
  let count (kind : TokenKind) : Int := tokens.countP fun t => t.kind == kind
  { lines := (Text.lines source).length
    characters := source.length
    tokens := tokens.length
    identifiers := count .identifier
    operators := count .operator
    numbers := count .number
    strings := count .string }

/-- The definitions of a program that nothing refers to, the main one apart. -/
def Program.unused (p : Program) (r : Resolution) : List String :=
  (p.definitions.filter fun d => d.name != "process" && r.referenceCount d == 0).map (·.name)

/-- The outline of a program. -/
def Program.outline (p : Program) (r : Resolution) (dims : Table Nat Dimension) (detail : Detail)
    (tokens : List Token) (source : String) : Outline :=
  let full := detail == .full
  { detail
    definitions :=
      if full then Definition.fullInfos dims p.definitions
      else p.definitions.map (Definition.basicInfo dims)
    imports := r.imports
    controls := p.controls r
    declarations := p.declarations.map fun d => ⟨d.key, d.value, d.mark.position.line⟩
    hasProcess := if full then some (p.definition? "process").isSome else none
    unused := if full then some (p.unused r) else none
    metrics := if full then some (Metrics.of tokens source) else none }

end Patchbay
