import Patchbay.Scope.Resolution

/-!
# Delays within reach

A feedback path needs a delay. `scan` looks for one in a box and in the definitions that its names refer
to, each definition at most once; `scanNode` does so for any node. Definitions that were searched without finding a
delay are remembered, so that they need not be searched again.
-/

namespace Patchbay

/-- The boxes directly inside a box, bodies of local definitions included. -/
def Box.parts : Box → List Box
  | .call _ _ args => args
  | .compose _ _ left right => [left, right]
  | .block _ body locals => body :: locals.filterMap (·.body)
  | _ => []

/-- The number of the node whose symbol decides, for names and calls. -/
def Box.nameId? : Box → Option Nat
  | .ref mark _ => some mark.id
  | .call mark _ _ => some mark.id
  | _ => none

/-- Whether a symbol delays. A name of a library with unknown dimension may. -/
def Symbol.delays (s : Symbol) : Bool := s.delay || (s.kind == .imported && s.arity.isNone)

namespace Delay

/-- Whether a box is a name or a call of something that delays. -/
def isDelay (r : Resolution) (b : Box) : Bool :=
  match b.nameId? with
  | some id => (r.symbol? id).any Symbol.delays
  | none => false

/-- The definition that a name or a call refers to. -/
def referred? (r : Resolution) (b : Box) : Option Definition :=
  match b.nameId? with
  | some id => r.userDefinition? id
  | none => none

/-- The body behind a name that has to be searched: that of a definition neither visited in this search
nor known to be free of delays. Gives the visited definitions after it. -/
def follow (r : Resolution) (free visited : List Nat) (b : Box) : List Nat × List Box :=
  match referred? r b with
  | none => (visited, [])
  | some d =>
    match d.body with
    | none => (visited, [])
    | some body =>
      if visited.contains d.id || free.contains d.id then (visited, [])
      else (d.id :: visited, [body])

/-- Searches boxes and all within their reach. Gives whether there is a delay, and the definitions
visited. The body behind a name is searched before the parts of the box, and these from left to right. No answer depends
on this order: a delay within reach is found in any order, and if there is none all definitions within reach are
visited. -/
def search (r : Resolution) (free : List Nat) :
    (fuel : Nat) → (pending : List Box) → (visited : List Nat) → Bool × List Nat
  | 0, _, visited => (false, visited)
  | _ + 1, [], visited => (false, visited)
  | fuel + 1, b :: pending, visited =>
    if isDelay r b then (true, visited)
    else
      let (visited, bodies) := follow r free visited b
      search r free fuel (bodies ++ b.parts ++ pending) visited

/-- The nodes of all definitions that names refer to, a definition being counted once for each name. -/
def referredNodes (r : Resolution) : Nat :=
  r.bindings.values.foldr (fun s n => (s.definition.map (·.nodeCount)).getD 0 + n) 0

/-- The boxes in a node where the search of it starts: the box that it is, or the bodies of its definitions. -/
def entries : Node → List Box
  | .box b => [b]
  | .definition d => d.body.toList
  | .program p => p.definitions.filterMap (·.body)
  | _ => []

/-- Whether a node has a delay within reach, and the definitions then known to be free of delays. Every
step takes one node of the boxes searched or of a definition that is visited once. -/
def scanNode (r : Resolution) (free : List Nat) (n : Node) : Bool × List Nat :=
  let (found, visited) := search r free (Box.nodeCounts (entries n) + referredNodes r + 1) (entries n) []
  (found, if found then free else visited ++ free)

/-- Whether a box has a delay within reach, and the definitions then known to be free of delays. -/
def scan (r : Resolution) (free : List Nat) (root : Box) : Bool × List Nat := scanNode r free (.box root)

end Delay

end Patchbay
