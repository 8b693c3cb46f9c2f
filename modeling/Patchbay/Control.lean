import Patchbay.Constant

/-!
# Controls of the user interface

A control is a call of a user-interface box whose first argument is a string: its label. Groups around it
give it a path. Labels may hold metadata in square brackets, which are no part of the name. The range of a
control must not be empty and must hold its default, and no two controls may share a path.
-/

namespace Patchbay

/-! ## Labels -/

/-- A label without its metadata: what stands between a bracket and the next closing one goes, with both.
`inside` says whether such a bracket is open; one that is never closed stays. -/
def dropMetadata : (inside : Bool) → List Char → List Char
  | _, [] => []
  | true, c :: cs => if c = ']' then dropMetadata false cs else dropMetadata true cs
  | false, c :: cs =>
    if c = '[' && cs.contains ']' then dropMetadata true cs else c :: dropMetadata false cs

/-- A label without metadata and without blanks around it. -/
def cleanLabel (label : String) : String :=
  String.ofList (Text.trim (dropMetadata false label.toList))

/-- The name of a group: its label without the layout that may stand before it. -/
def groupName (label : String) : String :=
  match label.toList with
  | c :: ':' :: rest =>
    if c = 'h' || c = 'v' || c = 't' then String.ofList rest else label
  | _ => label

/-! ## Controls -/

/-- A control of the user interface. -/
structure Control where
  kind : String
  label : String
  path : String
  position : Position
  initial : Option Binary64
  low : Option Binary64
  high : Option Binary64
  step : Option Binary64
  /-- The innermost definition around the control. -/
  owner : String
deriving DecidableEq, Repr, Inhabited

/-- Whether a node is bound to a box of the user interface. -/
def Resolution.isUi (r : Resolution) (id : Nat) : Bool :=
  (r.symbol? id).any fun symbol => symbol.kind == .ui

/-- The label of a call: its first argument, if that is a string. -/
def firstLabel? : List Box → Option String
  | .string _ value :: _ => some (cleanLabel value)
  | _ => none

/-- Whether a name is that of a control. -/
def isControl (name : String) : Bool := inputControls.contains name || bargraphs.contains name

/-- The constant at a place among arguments. -/
def Resolution.argument? (r : Resolution) (args : List Box) (place : Nat) : Option Binary64 :=
  args[place]?.bind r.constant?

/-- The control of a call. A display has a range, a slider also a default and a step. -/
def Resolution.control (r : Resolution) (mark : Mark) (name : String) (args : List Box) (label : String)
    (groups : List String) (owner : String) : Control :=
  let field (inDisplay inSlider : Option Nat) : Option Binary64 :=
    if bargraphs.contains name then inDisplay.bind (r.argument? args)
    else if sliders.contains name then inSlider.bind (r.argument? args)
    else none
  { kind := name
    label
    path := "/".intercalate (groups ++ [label])
    position := mark.position
    initial := field none (some 1)
    low := field (some 1) (some 2)
    high := field (some 2) (some 3)
    step := field none (some 4)
    owner }

/-- The control that a call is by itself, if it is one. -/
def Resolution.control? (r : Resolution) (mark : Mark) (name : String) (args : List Box)
    (groups : List String) (owner : String) : Option Control :=
  match firstLabel? args with
  | none => none
  | some label =>
    if r.isUi mark.id && isControl name then some (r.control mark name args label groups owner) else none

/-- The name of the group that a call opens: a group of the user interface with a label and a content. -/
def Resolution.group? (r : Resolution) (mark : Mark) (name : String) (args : List Box) : Option String :=
  match args with
  | [.string _ value, _] =>
    if r.isUi mark.id && Patchbay.groups.contains name then some (groupName (cleanLabel value)) else none
  | _ => none

mutual

/-- The controls of a box inside groups and a definition, each before those in its arguments. -/
def Box.controls (r : Resolution) (groups : List String) (owner : String) : Box → List Control
  | .ref _ _ => []
  | .number _ _ _ => []
  | .string _ _ => []
  | .compose _ _ left right => left.controls r groups owner ++ right.controls r groups owner
  | .block _ body locals => body.controls r groups owner ++ Definition.controlsAll r groups locals
  | .call mark name args =>
    match r.group? mark name args with
    | some inner => Box.controlsAll r (groups ++ [inner]) owner args
    | none => (r.control? mark name args groups owner).toList ++ Box.controlsAll r groups owner args

/-- The controls of boxes, one after another. -/
def Box.controlsAll (r : Resolution) (groups : List String) (owner : String) : List Box → List Control
  | [] => []
  | b :: bs => b.controls r groups owner ++ Box.controlsAll r groups owner bs

/-- The controls of a definition, unless it is invalid. -/
def Definition.controls (r : Resolution) (groups : List String) : Definition → List Control
  | ⟨_, _, _, none, _⟩ => []
  | ⟨mark, name, _, some body, _⟩ => if mark.invalid then [] else body.controls r groups name

/-- The controls of definitions, one after another. -/
def Definition.controlsAll (r : Resolution) (groups : List String) : List Definition → List Control
  | [] => []
  | d :: ds => d.controls r groups ++ Definition.controlsAll r groups ds

end

/-- Order of controls: by place. -/
def Control.notAfter (c d : Control) : Bool := c.position.before d.position

/-- The controls of a program: definition by definition, sorted by place within each. -/
def Program.controls (p : Program) (r : Resolution) : List Control :=
  p.definitions.flatMap fun d => (d.controls r []).mergeSort Control.notAfter

/-! ## Checks -/

/-- What is wrong with the range of a control. -/
def Control.rangeIssue? (c : Control) : Option Issue :=
  match c.low, c.high with
  | some low, some high =>
    if high.lt low then some (.minimumAboveMaximum c.label low high c.initial)
    else
      match c.initial with
      | some initial =>
        if low.le initial && initial.le high then none
        else some (.defaultOutsideRange c.label low high initial)
      | none => none
  | _, _ => none

/-- The numbers that the message of an issue writes out. -/
def Issue.amounts : Issue → List Binary64
  | .minimumAboveMaximum _ low high _ => [low, high]
  | .defaultOutsideRange _ low high initial => [initial, low, high]
  | _ => []

/-- The findings about ranges. A message cannot write an infinite number, which is a fault. -/
def rangeFindings : List Control → Except Fault (List Finding)
  | [] => .ok []
  | c :: cs =>
    match c.rangeIssue? with
    | none => rangeFindings cs
    | some issue =>
      if issue.amounts.all Binary64.isFinite then
        (rangeFindings cs).map (⟨c.position, issue⟩ :: ·)
      else .error .infiniteCount

/-- The findings about paths that an earlier control holds already; `seen` maps each path to the place of
its first holder. -/
def clashesFrom (seen : Table String Position) : List Control → List Finding
  | [] => []
  | c :: cs =>
    match seen.get? c.path with
    | some first => ⟨c.position, .pathInUse c.path first⟩ :: clashesFrom seen cs
    | none => clashesFrom (seen.insert c.path c.position) cs

/-- The findings about paths. -/
def pathFindings (controls : List Control) : List Finding :=
  clashesFrom .empty (controls.mergeSort Control.notAfter)

end Patchbay
