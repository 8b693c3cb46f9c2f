import Patchbay.Control
import Patchbay.Proofs.Nodes

/-!
# Controls of a program

Every control of a program is that of one of its calls. It depends on the resolution only through which boxes belong to
the user interface and which are constants. Its range is checked with the constants among the arguments, so the check
fails only if one of these is not finite.
-/

open List

namespace Patchbay

variable {r : Resolution} {nodes : List Node} {c : Control}

/-! ## One level -/

namespace Node

/-- The name of a definition. -/
def definitionName? : Node → Option String
  | .definition d => some d.name
  | _ => none

/-- The name of the group that a node opens. -/
def group? (r : Resolution) : Node → Option String
  | .box (.call mark name args) => r.group? mark name args
  | _ => none

/-- Whether controls are looked for below a node. -/
def entered : Node → Bool
  | .definition d => !d.invalid
  | _ => true

end Node

section

variable (r : Resolution) (groups : List String) (owner : String)

/-- The control that a node is by itself. -/
def Node.control? : Node → Option Control
  | .box (.call mark name args) => r.control? mark name args groups owner
  | _ => none

/-- The controls of a node inside groups and a definition. -/
def Node.controls : Node → List Control
  | .program p => p.definitions.flatMap (·.controls r groups)
  | .definition d => d.controls r groups
  | .box b => b.controls r groups owner
  | _ => []

theorem Box.controlsAll_eq_flatMap (bs : List Box) :
    Box.controlsAll r groups owner bs = (bs.map Node.box).flatMap (Node.controls r groups owner) := by
  induction bs with
  | nil => rfl
  | cons b bs ih =>
    rw [Box.controlsAll, ih]
    rfl

theorem Definition.controlsAll_eq_flatMap (ds : List Definition) :
    Definition.controlsAll r groups ds = (ds.map Node.definition).flatMap (Node.controls r groups owner) := by
  induction ds with
  | nil => rfl
  | cons d ds ih =>
    rw [Definition.controlsAll, ih]
    rfl

variable {r} {mark : Mark} {name : String} {args : List Box}

theorem Resolution.control?_of_group? {inner : String} (h : r.group? mark name args = some inner) :
    r.control? mark name args groups owner = none := by
  have hgroup : Patchbay.groups.contains name := by
    unfold Resolution.group? at h
    split at h
    · exact (Bool.and_eq_true_iff.mp (Option.ite_none_right_eq_some.mp h).1).2
    · cases h
  have hcontrol : isControl name = false := by
    have hall : Patchbay.groups.all fun name => !isControl name := by decide
    simpa using all_eq_true.mp hall name (contains_iff_mem.mp hgroup)
  rw [Resolution.control?, hcontrol, Bool.and_false]
  split <;> rfl

variable {groups owner}

theorem Resolution.control?_eq_some :
    r.control? mark name args groups owner = some c ↔ ∃ labelMark text rest, args = .string labelMark text :: rest
      ∧ r.isUi mark.id ∧ isControl name ∧ c = r.control mark name args (cleanLabel text) groups owner := by
  constructor
  · intro h
    unfold Resolution.control? at h
    split at h
    · cases h
    · rename_i label hlabel
      obtain ⟨hbound, hc⟩ := Option.ite_none_right_eq_some.mp h
      obtain ⟨hui, hcontrol⟩ := Bool.and_eq_true_iff.mp hbound
      cases hc
      unfold firstLabel? at hlabel
      split at hlabel
      · cases hlabel
        exact ⟨_, _, _, rfl, hui, hcontrol, rfl⟩
      · cases hlabel
  · rintro ⟨labelMark, text, rest, rfl, hui, hcontrol, rfl⟩
    simp [Resolution.control?, firstLabel?, hui, hcontrol]

namespace Node

variable (r groups owner)

/-- Controls of a node: its own one, then those of its parts, in its group and by its name. -/
theorem controls_eq (n : Node) (h : n.entered) :
    n.controls r groups owner = (n.control? r groups owner).toList
      ++ n.children.flatMap
          (controls r (groups ++ (n.group? r).toList) (n.definitionName?.getD owner)) := by
  cases n with
  | importing | declaration => rfl
  | program p =>
    have hempty {α : Type} (f : α → Node) (xs : List α) (hf : ∀ x, (f x).controls r groups owner = []) :
        (xs.map f).flatMap (controls r groups owner) = [] := by
      simp [flatMap_map, hf]
    simp only [children, group?, definitionName?, control?, flatMap_append, Option.toList_none, Option.getD_none,
      append_nil, nil_append]
    rw [hempty importing _ fun _ => rfl, hempty declaration _ fun _ => rfl, flatMap_map]
    rfl
  | definition d =>
    obtain ⟨mark, name, params, body, stop⟩ := d
    cases body with
    | none => rfl
    | some body =>
      have hvalid : mark.invalid = false := by simpa [entered, Definition.invalid] using h
      simp only [controls, Definition.controls, hvalid, control?, children, group?, definitionName?, Option.toList_none,
        Option.toList_some, nil_append, append_nil, map_cons, map_nil, flatMap_singleton,
        Option.getD_some, Bool.false_eq_true, if_false]
  | box b =>
    cases b with
    | ref | number | string => rfl
    | compose mark op left right =>
      simp only [controls, Box.controls, control?, children, group?, definitionName?, Option.toList_none, nil_append,
        append_nil, flatMap_cons, flatMap_nil, Option.getD_none]
    | block mark body locals =>
      simp only [controls, Box.controls, Definition.controlsAll_eq_flatMap r groups owner, control?, children, group?,
        definitionName?, Option.toList_none, nil_append, append_nil, flatMap_cons, Option.getD_none]
    | call mark name args =>
      simp only [controls, Box.controls, Box.controlsAll_eq_flatMap, control?, children, group?, definitionName?,
        Option.getD_none]
      cases hgroup : r.group? mark name args with
      | none => simp only [Option.toList_none, append_nil]
      | some inner =>
        simp only [Resolution.control?_of_group? groups owner hgroup, Option.toList_none, nil_append,
          Option.toList_some]

theorem controls_of_not_entered {n : Node} (h : n.entered = false) : n.controls r groups owner = [] := by
  match n, h with
  | .definition ⟨mark, name, params, none, stop⟩, _ => rfl
  | .definition ⟨mark, name, params, some body, stop⟩, h =>
    have hinvalid : mark.invalid := by simpa [entered, Definition.invalid] using h
    simp only [controls, Definition.controls, hinvalid, if_true]

end Node

/-! ## Calls -/

/-- The control is that of a call among the nodes, with the label of the call. -/
def Control.Among (r : Resolution) (nodes : List Node) (c : Control) : Prop :=
  ∃ mark name args label groups owner, Node.box (.call mark name args) ∈ nodes
    ∧ firstLabel? args = some label ∧ c = r.control mark name args label groups owner

/-- Every control below a node is that of a call that is met on the way down. -/
theorem Node.among_of_mem_controls (hentered : Entered nodes) (n : Node) (hn : n ∈ nodes) (hroot : ∀ p, n ≠ .program p)
    (groups : List String) (owner : String) (h : c ∈ n.controls r groups owner) : c.Among r nodes := by
  induction n using Node.induct generalizing groups owner with
  | h n ih =>
    cases hn' : n.entered with
    | false =>
      rw [n.controls_of_not_entered r groups owner hn'] at h
      cases h
    | true =>
      rw [n.controls_eq r groups owner hn'] at h
      rcases mem_append.mp h with h | h
      · match n, Option.mem_toList.mp h with
        | .box (.call mark name args), h =>
          obtain ⟨labelMark, text, rest, rfl, -, -, rfl⟩ := Resolution.control?_eq_some.mp h
          exact ⟨mark, name, _, cleanLabel text, _, _, hn, rfl, rfl⟩
      · obtain ⟨m, hm, h⟩ := mem_flatMap.mp h
        refine ih m hm ?_ (Node.ne_program_of_mem_children hm) _ _ h
        cases n with
        | program p => exact absurd rfl (hroot p)
        | importing | declaration => cases hm
        | definition d => exact hentered.definition d hn (by simpa [entered] using hn') m hm
        | box b => exact hentered.box b hn m hm

theorem Definition.among_of_mem_controls (hentered : Entered nodes) (d : Definition) (groups : List String)
    (hd : Node.definition d ∈ nodes) (h : c ∈ d.controls r groups) : c.Among r nodes :=
  Node.among_of_mem_controls hentered (.definition d) hd nofun groups "" h

end

variable {issue : Issue} {f : Finding} {p : Program} {cs : List Control} {findings : List Finding}

/-- Every control of a program is that of a call that is met in its definitions. -/
theorem Program.among_of_entered (hentered : Entered nodes) (hp : ∀ d ∈ p.definitions, Node.definition d ∈ nodes)
    (h : c ∈ p.controls r) : c.Among r nodes := by
  obtain ⟨d, hd, hc⟩ := mem_flatMap.mp h
  exact Definition.among_of_mem_controls hentered d [] (hp d hd) (mem_mergeSort.mp hc)

/-- Every control of a program is that of one of its calls. -/
theorem Program.among_of_mem_controls (h : c ∈ p.controls r) : c.Among r p.nodes :=
  among_of_entered p.partsIn_nodes.entered (fun _ hd => p.mem_nodes_of_definition hd) h

/-! ## Ranges -/

/-- The numbers that the range of a control is checked with. -/
def Control.numbers (c : Control) : List Binary64 := c.low.toList ++ c.high.toList ++ c.initial.toList

/-- The numbers of a control are constants among the arguments of its call. -/
theorem Resolution.exists_arg_of_mem_numbers {mark : Mark} {name label owner : String} {args : List Box}
    {groups : List String} {value : Binary64}
    (h : value ∈ (r.control mark name args label groups owner).numbers) :
    ∃ a ∈ args, r.constant? a = some value := by
  have hargument : ∀ place : Option Nat, place.bind (r.argument? args) = some value →
      ∃ a ∈ args, r.constant? a = some value := by
    intro place hplace
    obtain ⟨i, -, hi⟩ := Option.bind_eq_some_iff.mp hplace
    obtain ⟨a, ha, hconstant⟩ := Option.bind_eq_some_iff.mp hi
    exact ⟨a, mem_of_getElem? ha, hconstant⟩
  have hfield : ∀ inDisplay inSlider : Option Nat,
      (if bargraphs.contains name then inDisplay.bind (r.argument? args)
        else if sliders.contains name then inSlider.bind (r.argument? args) else none) = some value →
      ∃ a ∈ args, r.constant? a = some value := by
    intro inDisplay inSlider hvalue
    split at hvalue
    · exact hargument inDisplay hvalue
    · split at hvalue
      · exact hargument inSlider hvalue
      · simp at hvalue
  simp only [Control.numbers, mem_append, Option.mem_toList] at h
  rcases h with (h | h) | h
  · exact hfield (some 1) (some 2) h
  · exact hfield (some 2) (some 3) h
  · exact hfield none (some 1) h

/-- What can be wrong with a range: it is empty, or the default is outside. -/
theorem Control.cases_of_rangeIssue? (h : c.rangeIssue? = some issue) :
    ∃ low high, c.low = some low ∧ c.high = some high
      ∧ ((high.lt low ∧ issue = .minimumAboveMaximum c.label low high c.initial)
        ∨ (high.lt low = false ∧ ∃ initial, c.initial = some initial
            ∧ issue = .defaultOutsideRange c.label low high initial)) := by
  unfold rangeIssue? at h
  split at h
  · rename_i low high hlow hhigh
    refine ⟨low, high, hlow, hhigh, ?_⟩
    split at h
    · rename_i hless
      exact .inl ⟨hless, (Option.some.inj h).symm⟩
    · rename_i hless
      refine .inr ⟨by simpa using hless, ?_⟩
      split at h
      · rename_i initial hinitial
        split at h
        · simp at h
        · exact ⟨initial, hinitial, (Option.some.inj h).symm⟩
      · simp at h
  · simp at h

/-- What is wrong with a range is said with its numbers. -/
theorem Control.spec_of_rangeIssue? (h : c.rangeIssue? = some issue) :
    issue.kind = .range ∧ issue.amounts ⊆ c.numbers := by
  obtain ⟨low, high, hlow, hhigh, ⟨-, rfl⟩ | ⟨-, initial, hinitial, rfl⟩⟩ := cases_of_rangeIssue? h
  · exact ⟨rfl, by simp [Issue.amounts, numbers, hlow, hhigh]⟩
  · exact ⟨rfl, by simp [Issue.amounts, numbers, hlow, hhigh, hinitial]⟩

/-- What is found about the range of a control. -/
def Control.rangeFinding? (c : Control) : Option Finding := c.rangeIssue?.map fun issue => ⟨c.position, issue⟩

/-- Each range is checked by itself, and it must be possible to write down what is wrong with it. -/
theorem rangeFindings_eq_ok_iff :
    rangeFindings cs = .ok findings ↔
      (∀ c ∈ cs, ∀ issue ∈ c.rangeIssue?, issue.amounts.all Binary64.isFinite)
        ∧ findings = cs.filterMap Control.rangeFinding? := by
  induction cs generalizing findings with
  | nil =>
    constructor
    · intro h
      exact ⟨fun c hc => absurd hc not_mem_nil, (Except.ok.inj h).symm⟩
    · rintro ⟨-, rfl⟩
      rfl
  | cons c rest ih =>
    rw [rangeFindings, filterMap_cons, Control.rangeFinding?]
    cases hissue : c.rangeIssue? with
    | none => simp [ih, hissue]
    | some issue =>
      simp only [forall_mem_cons, hissue, Option.mem_some, forall_eq', Option.map_some]
      cases hfinite : issue.amounts.all Binary64.isFinite with
      | false => simp
      | true =>
        simp only [if_true, true_and]
        constructor
        · intro h
          cases hrest : rangeFindings rest with
          | error fault =>
            rw [hrest] at h
            simp [Except.map] at h
          | ok found =>
            obtain ⟨hall, rfl⟩ := ih.mp hrest
            rw [hrest] at h
            exact ⟨hall, (Except.ok.inj h).symm⟩
        · rintro ⟨hall, rfl⟩
          rw [ih.mpr ⟨hall, rfl⟩]
          rfl

/-- What is found about ranges is found about that of some control, and can be written. -/
theorem exists_control_of_mem_rangeFindings (h : rangeFindings cs = .ok findings) (hf : f ∈ findings) :
    ∃ c ∈ cs, f.position = c.position ∧ c.rangeIssue? = some f.issue
      ∧ f.issue.amounts.all Binary64.isFinite := by
  obtain ⟨hall, rfl⟩ := rangeFindings_eq_ok_iff.mp h
  obtain ⟨c, hc, hfinding⟩ := mem_filterMap.mp hf
  obtain ⟨issue, hissue, rfl⟩ := Option.map_eq_some_iff.mp hfinding
  exact ⟨c, hc, rfl, hissue, hall c hc issue hissue⟩

theorem kind_of_mem_rangeFindings (h : rangeFindings cs = .ok findings) (hf : f ∈ findings) :
    f.issue.kind = .range := by
  obtain ⟨c, -, -, hissue, -⟩ := exists_control_of_mem_rangeFindings h hf
  exact (Control.spec_of_rangeIssue? hissue).1

/-- Ranges of finite numbers can be checked. -/
theorem rangeFindings_isOk (h : ∀ c ∈ cs, ∀ value ∈ c.numbers, value.isFinite) :
    ∃ findings, rangeFindings cs = .ok findings := by
  refine ⟨_, rangeFindings_eq_ok_iff.mpr ⟨?_, rfl⟩⟩
  intro c hc issue hissue
  refine all_eq_true.mpr ?_
  intro value hvalue
  exact h c hc value ((Control.spec_of_rangeIssue? hissue).2 hvalue)

/-! ## Paths -/

theorem kind_of_mem_clashesFrom {seen : Table String Position} (h : f ∈ clashesFrom seen cs) :
    f.issue.kind = .path := by
  induction cs generalizing seen with
  | nil => simp [clashesFrom] at h
  | cons c rest ih =>
    rw [clashesFrom] at h
    split at h
    · rcases mem_cons.mp h with rfl | h
      · rfl
      · exact ih h
    · exact ih h

end Patchbay
