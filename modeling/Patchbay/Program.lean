import Patchbay.Number.Binary64
import Patchbay.Operator
import Patchbay.Position

/-!
# Programs

A program imports libraries, declares metadata and defines boxes. Every node of the tree carries a mark:
its number, its place, and whether it is the remains of something that could not be read.
-/

namespace Patchbay

/-- Number and place of a node, and whether it is invalid. -/
structure Mark where
  id : Nat
  position : Position
  invalid : Bool
deriving DecidableEq, Repr, Inhabited

mutual

/-- A box expression. -/
inductive Box where
  /-- A name, possibly dotted, or a box written as an operator. -/
  | ref (mark : Mark) (name : String)
  /-- A number with the text it was written as. -/
  | number (mark : Mark) (value : Binary64) (text : String)
  | string (mark : Mark) (value : String)
  /-- A named box applied to arguments. -/
  | call (mark : Mark) (name : String) (args : List Box)
  | compose (mark : Mark) (op : Operator) (left right : Box)
  /-- A box with definitions that are visible only in it and in each other. -/
  | block (mark : Mark) (body : Box) (locals : List Definition)

/-- The definition of a name; without a body if its start could not be read. -/
structure Definition where
  mark : Mark
  name : String
  params : List String
  body : Option Box
  stop : Position

end

deriving instance Repr for Box, Definition

instance : Inhabited Box := ⟨.ref default ""⟩
instance : Inhabited Definition := ⟨⟨default, "", [], none, default⟩⟩

/-- The import of a library. -/
structure Import where
  mark : Mark
  path : String
deriving DecidableEq, Repr, Inhabited

/-- Metadata: a key and its value. -/
structure Declaration where
  mark : Mark
  key : String
  value : String
deriving DecidableEq, Repr, Inhabited

/-- A whole program. -/
structure Program where
  imports : List Import
  declarations : List Declaration
  definitions : List Definition
deriving Repr, Inhabited

namespace Box

/-- The mark of a box. -/
def mark : Box → Mark
  | .ref mark _ => mark
  | .number mark _ _ => mark
  | .string mark _ => mark
  | .call mark _ _ => mark
  | .compose mark _ _ _ => mark
  | .block mark _ _ => mark

/-- The number of a box. -/
def id (b : Box) : Nat := b.mark.id

/-- The place of a box. -/
def position (b : Box) : Position := b.mark.position

/-- Whether a box is the remains of something that could not be read. -/
def invalid (b : Box) : Bool := b.mark.invalid

end Box

namespace Definition

/-- The number of a definition. -/
def id (d : Definition) : Nat := d.mark.id

/-- The place of a definition. -/
def position (d : Definition) : Position := d.mark.position

/-- Whether a definition could not be read. -/
def invalid (d : Definition) : Bool := d.mark.invalid

/-- The body of a definition that could be read. -/
def validBody? (d : Definition) : Option Box := if d.invalid then none else d.body

end Definition

namespace Program

/-- The program without statements. -/
def empty : Program := ⟨[], [], []⟩

/-- The first definition of a name. -/
def definition? (p : Program) (name : String) : Option Definition :=
  p.definitions.find? fun d => d.name == name

end Program

/-! ## Number of nodes -/

mutual

/-- The number of nodes of a box. -/
def Box.nodeCount : Box → Nat
  | .ref _ _ => 1
  | .number _ _ _ => 1
  | .string _ _ => 1
  | .call _ _ args => 1 + Box.nodeCounts args
  | .compose _ _ left right => 1 + left.nodeCount + right.nodeCount
  | .block _ body locals => 1 + body.nodeCount + Definition.nodeCounts locals

/-- The number of nodes of boxes together. -/
def Box.nodeCounts : List Box → Nat
  | [] => 0
  | b :: bs => b.nodeCount + Box.nodeCounts bs

/-- The number of nodes of a definition. -/
def Definition.nodeCount : Definition → Nat
  | ⟨_, _, _, none, _⟩ => 1
  | ⟨_, _, _, some body, _⟩ => 1 + body.nodeCount

/-- The number of nodes of definitions together. -/
def Definition.nodeCounts : List Definition → Nat
  | [] => 0
  | d :: ds => d.nodeCount + Definition.nodeCounts ds

end

/-! ## Sameness

Two programs are the same when they differ only in marks, ends and the texts of numbers. -/

mutual

/-- Whether two boxes are the same apart from marks, ends and number texts. -/
def Box.same : Box → Box → Bool
  | .ref _ a, .ref _ b => a == b
  | .number _ a _, .number _ b _ => a.sameNumber b
  | .string _ a, .string _ b => a == b
  | .call _ a xs, .call _ b ys => a == b && Box.sameAll xs ys
  | .compose _ p a b, .compose _ q c d => p == q && a.same c && b.same d
  | .block _ a ds, .block _ b es => a.same b && Definition.sameAll ds es
  | _, _ => false

/-- Whether two lists of boxes are the same, one by one. -/
def Box.sameAll : List Box → List Box → Bool
  | [], [] => true
  | x :: xs, y :: ys => x.same y && Box.sameAll xs ys
  | _, _ => false

/-- Whether two definitions are the same apart from marks, ends and number texts. -/
def Definition.same : Definition → Definition → Bool
  | ⟨_, a, ps, none, _⟩, ⟨_, b, qs, none, _⟩ => a == b && ps == qs
  | ⟨_, a, ps, some x, _⟩, ⟨_, b, qs, some y, _⟩ => a == b && ps == qs && x.same y
  | _, _ => false

/-- Whether two lists of definitions are the same, one by one. -/
def Definition.sameAll : List Definition → List Definition → Bool
  | [], [] => true
  | d :: ds, e :: es => d.same e && Definition.sameAll ds es
  | _, _ => false

end

/-- Whether two programs are the same apart from marks, ends and number texts. -/
def Program.same (p q : Program) : Bool :=
  p.imports.map (·.path) == q.imports.map (·.path)
    && p.declarations.map (fun d => (d.key, d.value)) == q.declarations.map (fun d => (d.key, d.value))
    && Definition.sameAll p.definitions q.definitions

/-! ## Walking -/

/-- A node of a program. -/
inductive Node where
  | program (program : Program)
  | importing (statement : Import)
  | declaration (statement : Declaration)
  | definition (definition : Definition)
  | box (box : Box)

namespace Node

/-- The mark of a node; a program is node zero at the start of the text. -/
def mark : Node → Mark
  | .program _ => ⟨0, .start, false⟩
  | .importing statement => statement.mark
  | .declaration statement => statement.mark
  | .definition d => d.mark
  | .box b => b.mark

/-- The parts of a node, in the order of the text. -/
def children : Node → List Node
  | .program p =>
    p.imports.map .importing ++ p.declarations.map .declaration ++ p.definitions.map .definition
  | .definition d => d.body.toList.map .box
  | .box (.call _ _ args) => args.map .box
  | .box (.compose _ _ left right) => [.box left, .box right]
  | .box (.block _ body locals) => .box body :: locals.map .definition
  | _ => []

end Node

mutual

/-- A box and all below it, each before its parts. -/
def Box.nodes : Box → List Node
  | .call mark name args => .box (.call mark name args) :: Box.nodesAll args
  | .compose mark op left right => .box (.compose mark op left right) :: (left.nodes ++ right.nodes)
  | .block mark body locals =>
    .box (.block mark body locals) :: (body.nodes ++ Definition.nodesAll locals)
  | other => [.box other]

/-- The nodes of boxes, one after another. -/
def Box.nodesAll : List Box → List Node
  | [] => []
  | b :: bs => b.nodes ++ Box.nodesAll bs

/-- A definition and all below it, each before its parts. -/
def Definition.nodes : Definition → List Node
  | ⟨mark, name, params, none, stop⟩ => [.definition ⟨mark, name, params, none, stop⟩]
  | ⟨mark, name, params, some body, stop⟩ =>
    .definition ⟨mark, name, params, some body, stop⟩ :: body.nodes

/-- The nodes of definitions, one after another. -/
def Definition.nodesAll : List Definition → List Node
  | [] => []
  | d :: ds => d.nodes ++ Definition.nodesAll ds

end

/-- All nodes of a program, each before its parts. -/
def Program.nodes (p : Program) : List Node :=
  .program p :: (p.imports.map .importing ++ p.declarations.map .declaration
    ++ Definition.nodesAll p.definitions)

end Patchbay
