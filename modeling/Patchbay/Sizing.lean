import Patchbay.Constant
import Patchbay.Sizing.Delay

/-!
# Sizing boxes

Every box gets its dimension from those of its parts. A box whose dimension cannot be known gets none, and
nothing is reported about what depends on it, so a mistake is reported once.

Definitions are sized on demand by a machine: a frame for each definition that is being sized, with the
boxes still to be sized in it. When a box needs a definition that was not sized yet, a frame for that
definition is put on top and the box waits. A definition that is needed while its own frame is open is
part of a cycle.
-/

namespace Patchbay

namespace Sizing

/-- A definition being sized, and the boxes to do in it: those marked ready have their parts sized. -/
structure Frame where
  definition : Definition
  pending : List (Box × Bool)

/-- What sizing has found out so far. -/
structure State where
  /-- Dimensions by the number of the node. -/
  dims : Table Nat Dimension
  findings : List Finding
  /-- Definitions that were sized. -/
  done : List Nat
  /-- Definitions being sized, the innermost first. -/
  frames : List Frame
  /-- Definitions known to have no delay within reach. -/
  delayFree : List Nat
  /-- Why sizing cannot go on. -/
  fault : Option Fault

/-- Nothing sized yet. -/
def State.start : State := ⟨.empty, [], [], [], [], none⟩

/-- What sizing refers to. -/
structure Context where
  resolution : Resolution
  primitives : Primitives

namespace State

/-- The dimension of a box. -/
def dim? (s : State) (b : Box) : Option Dimension := s.dims.get? b.id

/-- Whether a definition was sized. -/
def isDone (s : State) (d : Definition) : Bool := s.done.contains d.id

/-- Whether a definition is being sized. -/
def isActive (s : State) (d : Definition) : Bool := s.frames.any fun f => f.definition.id == d.id

/-- Adds a finding. -/
def report (s : State) (position : Position) (issue : Issue) : State :=
  { s with findings := s.findings ++ [⟨position, issue⟩] }

/-- The definitions being sized from `d` inwards, outermost first. -/
def cycleFrom (s : State) (d : Definition) : List Definition :=
  ((s.frames.map (·.definition)).reverse).dropWhile fun e => e.id != d.id

/-- Reports the cycle that a reference to `d` closes. -/
def reportCycle (s : State) (d : Definition) (position : Position) : State :=
  s.report position (.circularDefinition ((s.cycleFrom d).map (·.name)) d.position)

/-- The dimension of a definition that was sized; a cycle is reported if it is being sized. -/
def askDefinition (s : State) (d : Definition) (position : Position) : Option Dimension × State :=
  if s.isDone d then (s.dims.get? d.id, s)
  else if s.isActive d then (none, s.reportCycle d position)
  else (none, s)

/-- Starts to size a definition. There is nothing to size in one that could not be read. -/
def openDefinition (s : State) (d : Definition) : State :=
  match d.validBody? with
  | none => { s with done := d.id :: s.done }
  | some body => { s with frames := ⟨d, [(body, false)]⟩ :: s.frames }

/-- Ends the sizing of a definition: its parameters are inputs in front of those of its body. -/
def closeDefinition (s : State) (d : Definition) : State :=
  let s := { s with frames := s.frames.tail, done := d.id :: s.done }
  match d.body.bind s.dim? with
  | none => s
  | some body =>
    { s with dims := s.dims.insert d.id ⟨d.params.length + body.inputs, body.outputs⟩ }

end State

/-! ## Rules -/

/-- The count and the body of an iteration: an iteration form that is not shadowed, with three
arguments. -/
def iterationParts? (c : Context) (id : Nat) (name : String) (args : List Box) : Option (Box × Box) :=
  match args with
  | [_, count, body] =>
    if iterations.contains name && (c.resolution.symbol? id).any (·.kind == .primitive)
    then some (count, body) else none
  | _ => none

/-- The boxes that are sized before a box. -/
def operands (c : Context) : Box → List Box
  | .compose _ _ left right => [left, right]
  | .block _ body _ => [body]
  | .call mark name args =>
    match iterationParts? c mark.id name args with
    | some (_, body) => [body]
    | none => args
  | _ => []

/-- The definitions that are sized before a box. A call needs its head only when all its arguments have a
dimension. -/
def needs (c : Context) (s : State) : Box → List Definition
  | .block _ _ locals => locals
  | .ref mark _ => (c.resolution.userDefinition? mark.id).toList
  | .call mark _ args =>
    if args.any fun a => (s.dim? a).isNone then []
    else (c.resolution.userDefinition? mark.id).toList
  | _ => []

/-- The next definition to be sized before a box. -/
def nextNeeded? (c : Context) (s : State) (b : Box) : Option Definition :=
  (needs c s b).find? fun d => !s.isDone d && !s.isActive d

/-- The dimension of what a name stands for. -/
def sizeReference (c : Context) (s : State) (mark : Mark) : Option Dimension × State :=
  match c.resolution.symbol? mark.id with
  | none => (none, s)
  | some symbol =>
    match symbol.kind, symbol.definition with
    | .userDefined, some d => s.askDefinition d mark.position
    | .parameter, _ => (some .signal, s)
    | _, _ => (symbol.arity, s)

/-- Whether a box is a parameter, which may stand for a box of any dimension. -/
def isParameter (c : Context) : Box → Bool
  | .ref mark _ => (c.resolution.symbol? mark.id).any (·.kind == .parameter)
  | _ => false

/-- The dimension of a composition; feedback needs a delay. -/
def sizeComposition (c : Context) (s : State) (mark : Mark) (op : Operator) (left right : Box) :
    Option Dimension × State :=
  match s.dim? left, s.dim? right with
  | some a, some b =>
    if op ≠ .par && isParameter c right then (none, s)
    else
      match Dimension.compose op a b with
      | none => (none, s.report mark.position (.badComposition op a b))
      | some result =>
        if op = .recur then
          let (found, free) := Delay.scan c.resolution s.delayFree right
          let s := { s with delayFree := free }
          (some result, if found then s else s.report mark.position .feedbackWithoutDelay)
        else (some result, s)
  | _, _ => (none, s)

/-- The dimension of a call of a box of dimension `callee`: arguments feed its first inputs, and the
inputs of the arguments come before those left. -/
def callDimension (callee : Dimension) (args : List Dimension) : Option Dimension :=
  let supplied := Dimension.total (·.outputs) args
  let consumed := Dimension.total (·.inputs) args
  if callee.inputs < supplied then none
  else some ⟨consumed + callee.inputs - supplied, callee.outputs⟩

/-- The dimension of an ordinary call. -/
def sizeCall (c : Context) (s : State) (mark : Mark) (name : String) (args : List Box) :
    Option Dimension × State :=
  match args.mapM s.dim? with
  | none => (none, s)
  | some dims =>
    match sizeReference c s mark with
    | (none, s) => (none, s)
    | (some callee, s) =>
      match callDimension callee dims with
      | some result => (some result, s)
      | none =>
        let supplied := Dimension.total (·.outputs) dims
        (none, s.report mark.position (.tooManySignals name callee.inputs supplied))

/-- The dimension of a call of a user-interface box: groups have that of their content, displays let a
signal through, controls produce one. -/
def sizeUiCall (c : Context) (s : State) (mark : Mark) (name : String) (args : List Box) :
    Option Dimension × State :=
  match (c.primitives.get? name).bind (·.uiArgs) with
  | some expected =>
    if (args.length : Int) ≠ expected then
      (none, s.report mark.position (.argumentCount name expected args.length))
    else content
  | none => content
where
  /-- The dimension when the number of arguments is right. -/
  content : Option Dimension × State :=
    if groups.contains name then
      match args with
      | _ :: inner :: _ => (s.dim? inner, s)
      | _ => (none, { s with fault := some .outOfRange })
    else if bargraphs.contains name then (some ⟨1, 1⟩, s)
    else if inputControls.contains name then (some .signal, s)
    else (none, s)

/-- The dimension of `count` copies of a box of dimension `body`: side by side, one after another, or side
by side with the outputs merged. None when copies cannot be put one after another. -/
def iterationDimension (name : String) (count : Nat) (body : Dimension) : Option Dimension :=
  if name = "par" then some ⟨count * body.inputs, count * body.outputs⟩
  else if name = "seq" then
    if 1 < count && body.inputs ≠ body.outputs then none
    else if count = 0 then some ⟨0, 0⟩
    else some body
  else some ⟨count * body.inputs, body.outputs⟩

/-- The dimension of an iteration. Its count must be a constant and a natural number. -/
def sizeIteration (c : Context) (s : State) (mark : Mark) (name : String) (count body : Box) :
    Option Dimension × State :=
  match s.dim? body, c.resolution.constant? count with
  | some dimension, some value =>
    if value.lt (.finite false 0) then (none, s)
    else if !value.isFinite then (none, { s with fault := some .infiniteCount })
    else
      match value.toInt? with
      | none => (none, s)
      | some n =>
        match iterationDimension name n.toNat dimension with
        | some result => (some result, s)
        | none => (none, s.report mark.position (.badChain dimension))
  | _, _ => (none, s)

/-- Asks for the local definitions of a block, which were sized before. -/
def askLocals (locals : List Definition) (s : State) : State :=
  locals.foldl (fun s d => (s.askDefinition d d.position).2) s

/-- The dimension of a box whose parts and needed definitions were sized. -/
def sizeBox (c : Context) (s : State) (b : Box) : Option Dimension × State :=
  if b.invalid then (none, s)
  else
    match b with
    | .number _ _ _ => (some .signal, s)
    | .string _ _ => (some .signal, s)
    | .ref mark _ => sizeReference c s mark
    | .compose mark op left right => sizeComposition c s mark op left right
    | .block _ body locals =>
      let s := askLocals locals s
      (s.dim? body, s)
    | .call mark name args =>
      match c.resolution.symbol? mark.id with
      | none => (none, s)
      | some symbol =>
        match iterationParts? c mark.id name args with
        | some (count, body) => sizeIteration c s mark name count body
        | none =>
          if symbol.kind = .ui then sizeUiCall c s mark name args
          else if symbol.kind = .parameter then (none, s)
          else sizeCall c s mark name args

/-! ## The machine -/

/-- Enters the dimension of a box. -/
def State.enter (s : State) (b : Box) (dim : Option Dimension) : State :=
  match dim with
  | some d => { s with dims := s.dims.insert b.id d }
  | none => s

/-- One step of the machine. -/
def step (c : Context) (s : State) : State :=
  match s.frames with
  | [] => s
  | ⟨d, []⟩ :: _ => s.closeDefinition d
  | ⟨d, (b, false) :: rest⟩ :: below =>
    let todo := (operands c b).map fun part => (part, false)
    { s with frames := ⟨d, todo ++ (b, true) :: rest⟩ :: below }
  | ⟨d, (b, true) :: rest⟩ :: below =>
    match nextNeeded? c s b with
    | some needed => s.openDefinition needed
    | none =>
      let (dim, s) := sizeBox c s b
      { s with frames := ⟨d, rest⟩ :: below }.enter b dim

/-- Steps until no frame is left or a fault stops the machine. -/
def run (c : Context) : (fuel : Nat) → State → State
  | 0, s => s
  | fuel + 1, s => if s.frames.isEmpty || s.fault.isSome then s else run c fuel (step c s)

/-- Sizes a definition unless it was sized before. -/
def sizeDefinition (c : Context) (fuel : Nat) (s : State) (d : Definition) : State :=
  if s.isDone d || s.fault.isSome then s else run c fuel (s.openDefinition d)

/-- Steps enough for any program: each box takes two steps, each definition is opened and closed. -/
def fuelFor (p : Program) : Nat := 2 * p.nodes.length + 2

/-- Sizes the definitions of a program, in order. -/
def sizeProgram (c : Context) (p : Program) : State :=
  p.definitions.foldl (sizeDefinition c (fuelFor p)) .start

end Sizing

/-- The dimensions of the boxes of a program, with the findings of sizing it. A finding that cannot be
written came before whatever stopped sizing, so it counts first. -/
def Program.dimensions (p : Program) (resolution : Resolution) (primitives : Primitives) :
    Except Fault Sizing.State :=
  let s := Sizing.sizeProgram ⟨resolution, primitives⟩ p
  if s.findings.all fun f => f.issue.isWritable then
    match s.fault with
    | some fault => .error fault
    | none => .ok s
  else .error .tooManyDigits

end Patchbay
