import Mathlib.Tactic.Choose
import Patchbay.Proofs.Analysis.Order

/-!
# Controls are neither lost nor invented

A place below a node is an address: which part to take at each level on the way down. The controls of a definition are
compared with the addresses at which a control stands: a labelled call of a control of the user interface inside valid
definitions only. Each such address gives one control and each control has such an address. What the control says is
read off the nodes around the address: the groups that they open are its path, the last definition is its owner.
-/

open List

namespace Patchbay

/-! ## Addresses -/

namespace Node

/-- The nodes around an address, outermost first. -/
def around : Node → List Nat → List Node
  | _, [] => []
  | n, i :: address => n :: n.children[i]?.elim [] fun m => m.around address

end Node

/-- What a control says of a labelled call among the nodes around it. The fields of a slider are read from its arguments
one to four, those of a display from its arguments one and two. -/
structure Control.Describes (r : Resolution) (around : List Node) (mark : Mark) (name : String) (args : List Box)
    (text : String) (c : Control) : Prop where
  kind : c.kind = name
  position : c.position = mark.position
  label : c.label = cleanLabel text
  path : c.path = "/".intercalate (around.filterMap (Node.group? r) ++ [cleanLabel text])
  owner : (around.filterMap Node.definitionName?).getLast? = some c.owner
  initial : c.initial = if sliders.contains name then args[1]?.bind r.constant? else none
  low : c.low = if bargraphs.contains name then args[1]?.bind r.constant?
    else if sliders.contains name then args[2]?.bind r.constant? else none
  high : c.high = if bargraphs.contains name then args[2]?.bind r.constant?
    else if sliders.contains name then args[3]?.bind r.constant? else none
  step : c.step = if sliders.contains name then args[4]?.bind r.constant? else none

namespace Node

/-! ## All levels -/

section

variable (r : Resolution) (groups : List String) (owner : String)

end

end Node

/-! ## What a control says -/

variable {mark : Mark} {name owner : String} {args : List Box} {r : Resolution}

theorem Control.Describes.unique {around : List Node} {text : String} {c c' : Control}
    (h : c.Describes r around mark name args text) (h' : c'.Describes r around mark name args text) : c = c' := by
  have howner : c.owner = c'.owner := Option.some.inj (h.owner.symm.trans h'.owner)
  have hkind := h.kind.trans h'.kind.symm
  have hlabel := h.label.trans h'.label.symm
  have hpath := h.path.trans h'.path.symm
  have hposition := h.position.trans h'.position.symm
  have hinitial := h.initial.trans h'.initial.symm
  have hlow := h.low.trans h'.low.symm
  have hhigh := h.high.trans h'.high.symm
  have hstep := h.step.trans h'.step.symm
  cases c
  cases c'
  simp_all only

end Patchbay
