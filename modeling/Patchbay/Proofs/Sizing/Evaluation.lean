import Patchbay.Proofs.Sizing.DelaySearch
import Patchbay.Sizing

/-!
# Evaluating dimensions by recursion

The dimension of a box is given by those of its operands and, for names and calls, by that of the definition they refer
to. `rule` says how, for one box, and what there is to report about it. `evaluate` applies the rules by recursion, to
a depth; a box that needs more than that has no outcome. An outcome stays the same at every greater depth.
-/

namespace Patchbay.Sizing

/-! ## Rules -/

/-- What is found out about a box: its dimension, if it can be known, and what there is to report. -/
structure Outcome where
  dim : Option Dimension
  findings : List Finding

/-- A dimension with nothing to report. -/
def Outcome.silent (dim : Option Dimension) : Outcome := ⟨dim, []⟩

/-- A box whose rule fails. -/
def Outcome.failed (position : Position) (issue : Issue) : Outcome := ⟨none, [⟨position, issue⟩]⟩

/-- The dimension of what a name stands for: that of its definition, a signal for a parameter, and the arity of
anything else. -/
def referenceRule (c : Context) (definitions : Definition → Option (Option Dimension)) (mark : Mark) :
    Option (Option Dimension) :=
  match c.resolution.symbol? mark.id with
  | none => some none
  | some symbol =>
    match symbol.kind, symbol.definition with
    | .userDefined, some d => definitions d
    | .parameter, _ => some (some .signal)
    | _, _ => some symbol.arity

open Classical in
/-- A composition of two dimensions. A parameter on the right of an operator that consumes inputs may stand for a box of
any dimension. A valid feedback without a delay on its right is reported. -/
noncomputable def compositionRule (c : Context) (mark : Mark) (op : Operator) (right : Box) :
    Option Dimension → Option Dimension → Outcome
  | some a, some b =>
    if op ≠ .par ∧ isParameter c right = true then .silent none
    else
      match Dimension.compose op a b with
      | none => .failed mark.position (.badComposition op a b)
      | some result =>
        if op = .recur ∧ ¬ Delay.Contains c.resolution right then
          ⟨some result, [⟨mark.position, .feedbackWithoutDelay⟩]⟩
        else .silent (some result)
  | _, _ => .silent none

/-- A call: the arguments may not supply more signals than the callee has inputs. -/
def callRule (mark : Mark) (name : String) (callee : Dimension) (args : List Dimension) : Outcome :=
  match callDimension callee args with
  | some result => .silent (some result)
  | none => .failed mark.position (.tooManySignals name callee.inputs (Dimension.total (·.outputs) args))

/-- The number of copies that a count asks for: a constant that is a natural number. -/
def copies? (c : Context) (count : Box) : Option Nat :=
  match c.resolution.constant? count with
  | none => none
  | some value =>
    if value.lt (.finite false 0) || !value.isFinite then none else value.toInt?.map Int.toNat

/-- An iteration of a body. -/
def iterationRule (c : Context) (mark : Mark) (name : String) (count : Box) (body : Option Dimension) :
    Outcome :=
  match body, copies? c count with
  | some dimension, some n =>
    match iterationDimension name n dimension with
    | some result => .silent (some result)
    | none => .failed mark.position (.badChain dimension)
  | _, _ => .silent none

/-- A user-interface box with the right number of arguments: a group has the dimension of its content. -/
def contentRule (boxes : Box → Option (Option Dimension)) (name : String) (args : List Box) :
    Option (Option Dimension) :=
  if groups.contains name then
    match args with
    | _ :: inner :: _ => boxes inner
    | _ => some none
  else if bargraphs.contains name then some (some ⟨1, 1⟩)
  else if inputControls.contains name then some (some .signal)
  else some none

/-- A call of a user-interface box. Its number of arguments is checked whatever their dimensions are. -/
def uiRule (c : Context) (boxes : Box → Option (Option Dimension)) (mark : Mark) (name : String)
    (args : List Box) : Option Outcome :=
  match (c.primitives.get? name).bind (·.uiArgs) with
  | some expected =>
    if (args.length : Int) ≠ expected then
      some (.failed mark.position (.argumentCount name expected args.length))
    else (contentRule boxes name args).map .silent
  | none => (contentRule boxes name args).map .silent

/-- The outcome of an ordinary call, given the dimensions of its arguments. No dimension is asked for its head when an
argument has none. -/
def ordinaryRule (c : Context) (definitions : Definition → Option (Option Dimension)) (mark : Mark)
    (name : String) (dims : List (Option Dimension)) : Option Outcome :=
  match dims.mapM id with
  | none => some (.silent none)
  | some dims =>
    (referenceRule c definitions mark).map fun callee =>
      match callee with
      | none => .silent none
      | some callee => callRule mark name callee dims

/-- The outcome of a box, given dimensions of its operands and of definitions. -/
noncomputable def rule (c : Context) (boxes : Box → Option (Option Dimension))
    (definitions : Definition → Option (Option Dimension)) (b : Box) : Option Outcome :=
  if b.invalid then some (.silent none)
  else
    match b with
    | .number _ _ _ => some (.silent (some .signal))
    | .string _ _ => some (.silent (some .signal))
    | .ref mark _ => (referenceRule c definitions mark).map .silent
    | .compose mark op left right =>
      (boxes left).bind fun a => (boxes right).map fun b => compositionRule c mark op right a b
    | .block _ body _ => (boxes body).map .silent
    | .call mark name args =>
      match c.resolution.symbol? mark.id with
      | none => some (.silent none)
      | some symbol =>
        match iterationParts? c mark.id name args with
        | some (count, body) => (boxes body).map (iterationRule c mark name count)
        | none =>
          if symbol.kind = .ui then uiRule c boxes mark name args
          else if symbol.kind = .parameter then some (.silent none)
          else (args.mapM boxes).bind (ordinaryRule c definitions mark name)

/-- The dimension of a definition: its parameters are inputs in front of those of its body. One that could not be read
has none. -/
def definitionRule (boxes : Box → Option (Option Dimension)) (d : Definition) :
    Option (Option Dimension) :=
  match d.validBody? with
  | none => some none
  | some body =>
    (boxes body).map fun dim => dim.map fun body => ⟨d.params.length + body.inputs, body.outputs⟩

/-! ## Recursion -/

/-- The outcome of a box by recursion, to a depth. -/
noncomputable def evaluate (c : Context) : (depth : Nat) → Box → Option Outcome
  | 0, _ => none
  | depth + 1, b =>
    let boxes := fun x => (evaluate c depth x).map (·.dim)
    rule c boxes (definitionRule boxes) b

/-- The dimension of a box by recursion, to a depth. -/
noncomputable def evaluateDim (c : Context) (depth : Nat) (b : Box) : Option (Option Dimension) :=
  (evaluate c depth b).map (·.dim)

/-- The dimension of a definition by recursion, to a depth. -/
noncomputable def evaluateDefinition (c : Context) (depth : Nat) (d : Definition) :
    Option (Option Dimension) :=
  definitionRule (evaluateDim c depth) d

/-- What the recursion reports about a box. -/
noncomputable def emitted (c : Context) (depth : Nat) (b : Box) : List Finding :=
  match evaluate c depth b with
  | some outcome => outcome.findings
  | none => []

/-! ## Greater depths

What a rule gives stays the same when more dimensions are known, as long as those that were known stay. -/

variable {b : Box} {m n : Nat} {mark : Mark} {name : String} {c : Context} {outcome : Outcome} {args : List Box}
  {d : Definition} {dim : Option Dimension} {dims : List (Option Dimension)}

theorem userDefinition?_eq_some_iff {r : Resolution} {id : Nat} : r.userDefinition? id = some d
      ↔ ∃ symbol, r.symbol? id = some symbol ∧ symbol.kind = .userDefined ∧ symbol.definition = some d := by
  unfold Resolution.userDefinition?
  cases r.symbol? id with
  | none => simp
  | some symbol => simp

section Mono

variable {c : Context} {boxes boxes' : Box → Option (Option Dimension)}
  {definitions definitions' : Definition → Option (Option Dimension)}

section

variable (hdefs : ∀ d, c.resolution.userDefinition? mark.id = some d →
  ∀ v, definitions d = some v → definitions' d = some v)

include hdefs

theorem referenceRule_mono
    (h : referenceRule c definitions mark = some dim) : referenceRule c definitions' mark = some dim := by
  unfold referenceRule at h ⊢
  cases hsymbol : c.resolution.symbol? mark.id with
  | none =>
    rw [hsymbol] at h
    exact h
  | some symbol =>
    rw [hsymbol] at h
    dsimp only at h ⊢
    split at h
    · rename_i d hkind hd
      exact hdefs d (userDefinition?_eq_some_iff.mpr ⟨symbol, hsymbol, hkind, hd⟩) dim h
    · exact h
    · exact h

theorem ordinaryRule_mono (h : ordinaryRule c definitions mark name dims = some outcome) :
    ordinaryRule c definitions' mark name dims = some outcome := by
  unfold ordinaryRule at h ⊢
  split at h
  · exact h
  · obtain ⟨callee, hcallee, rfl⟩ := Option.map_eq_some_iff.mp h
    rw [referenceRule_mono hdefs hcallee]
    rfl

end

section

variable (hboxes : ∀ x ∈ args, ∀ v, boxes x = some v → boxes' x = some v)

include hboxes

theorem mapM_mono (h : args.mapM boxes = some dims) : args.mapM boxes' = some dims := by
  induction args generalizing dims with
  | nil => exact h
  | cons first rest ih =>
    rw [List.mapM_cons] at h ⊢
    obtain ⟨v, hv, h⟩ := Option.bind_eq_some_iff.mp h
    obtain ⟨vs, hvs, h⟩ := Option.bind_eq_some_iff.mp h
    have hfirst := hboxes first List.mem_cons_self v hv
    have hrest := ih (fun x hx => hboxes x (List.mem_cons_of_mem _ hx)) hvs
    rw [hfirst, hrest]
    exact h

theorem contentRule_mono (h : contentRule boxes name args = some dim) : contentRule boxes' name args = some dim := by
  unfold contentRule at h ⊢
  by_cases hgroup : groups.contains name
  · rw [if_pos hgroup] at h ⊢
    match args with
    | [] => exact h
    | [_] => exact h
    | _ :: inner :: _ => exact hboxes inner (by simp) dim h
  · rw [if_neg hgroup] at h ⊢
    exact h

theorem uiRule_mono
    (h : uiRule c boxes mark name args = some outcome) : uiRule c boxes' mark name args = some outcome := by
  have hcontent : ∀ o, (contentRule boxes name args).map Outcome.silent = some o →
      (contentRule boxes' name args).map Outcome.silent = some o := by
    intro o ho
    obtain ⟨dim, hdim, rfl⟩ := Option.map_eq_some_iff.mp ho
    rw [contentRule_mono hboxes hdim]
    rfl
  unfold uiRule at h ⊢
  split at h
  · rename_i expected _
    by_cases hlength : (args.length : Int) ≠ expected
    · rw [if_pos hlength] at h ⊢
      exact h
    · rw [if_neg hlength] at h ⊢
      exact hcontent outcome h
  · exact hcontent outcome h

end

/-- The outcome of a box depends on its operands and on the definition that it refers to. -/
theorem rule_mono (hboxes : ∀ x ∈ operands c b, ∀ v, boxes x = some v → boxes' x = some v)
    (hdefs : ∀ d, Delay.referred? c.resolution b = some d → ∀ v, definitions d = some v → definitions' d = some v)
    (h : rule c boxes definitions b = some outcome) : rule c boxes' definitions' b = some outcome := by
  unfold rule at h ⊢
  by_cases hinvalid : b.invalid
  · rw [if_pos hinvalid] at h ⊢
    exact h
  rw [if_neg hinvalid] at h ⊢
  cases b with
  | number mark value text => exact h
  | string mark value => exact h
  | ref mark name =>
    obtain ⟨dim, hdim, rfl⟩ := Option.map_eq_some_iff.mp h
    dsimp only
    rw [referenceRule_mono hdefs hdim]
    rfl
  | compose mark op left right =>
    obtain ⟨a, ha, h⟩ := Option.bind_eq_some_iff.mp h
    obtain ⟨b, hb, rfl⟩ := Option.map_eq_some_iff.mp h
    dsimp only
    rw [hboxes left (by simp [operands]) a ha, hboxes right (by simp [operands]) b hb]
    rfl
  | block mark body locals =>
    obtain ⟨dim, hdim, rfl⟩ := Option.map_eq_some_iff.mp h
    dsimp only
    rw [hboxes body (by simp [operands]) dim hdim]
    rfl
  | call mark name args =>
    dsimp only at h ⊢
    cases hsymbol : c.resolution.symbol? mark.id with
    | none =>
      rw [hsymbol] at h
      exact h
    | some symbol =>
      rw [hsymbol] at h
      cases hparts : iterationParts? c mark.id name args with
      | some parts =>
        obtain ⟨count, body⟩ := parts
        rw [hparts] at h
        obtain ⟨dim, hdim, rfl⟩ := Option.map_eq_some_iff.mp h
        dsimp only
        rw [hboxes body (by simp [operands, hparts]) dim hdim]
        rfl
      | none =>
        -- All arguments are operands unless the call is an iteration.
        have hargs : ∀ x ∈ args, ∀ v, boxes x = some v → boxes' x = some v := by
          intro x hx
          exact hboxes x (by simpa [operands, hparts] using hx)
        rw [hparts] at h
        dsimp only at h ⊢
        by_cases hui : symbol.kind = .ui
        · rw [if_pos hui] at h ⊢
          exact uiRule_mono hargs h
        rw [if_neg hui] at h ⊢
        by_cases hparameter : symbol.kind = .parameter
        · rw [if_pos hparameter] at h ⊢
          exact h
        rw [if_neg hparameter] at h ⊢
        obtain ⟨dims, hdims, h⟩ := Option.bind_eq_some_iff.mp h
        rw [mapM_mono hargs hdims, Option.bind_some]
        exact ordinaryRule_mono hdefs h

theorem definitionRule_mono (hboxes : ∀ x v, boxes x = some v → boxes' x = some v)
    (h : definitionRule boxes d = some dim) : definitionRule boxes' d = some dim := by
  unfold definitionRule at h ⊢
  cases hbody : d.validBody? with
  | none =>
    rw [hbody] at h
    exact h
  | some body =>
    rw [hbody] at h
    obtain ⟨v, hv, rfl⟩ := Option.map_eq_some_iff.mp h
    dsimp only
    rw [hboxes body v hv]
    rfl

end Mono

/-- An outcome stays the same at every greater depth. -/
theorem evaluate_mono (hle : n ≤ m) (h : evaluate c n b = some outcome) : evaluate c m b = some outcome := by
  -- On the smaller depth: the greater one has a step for each of its steps, and rules keep what they gave.
  induction n generalizing m b outcome with
  | zero => simp [evaluate] at h
  | succ n ih =>
    obtain ⟨m, rfl⟩ : ∃ k, m = k + 1 := ⟨m - 1, by omega⟩
    have hdims : ∀ x v, (evaluate c n x).map (·.dim) = some v →
        (evaluate c m x).map (·.dim) = some v := by
      intro x v hv
      obtain ⟨o, ho, rfl⟩ := Option.map_eq_some_iff.mp hv
      rw [ih (by omega) ho]
      rfl
    rw [evaluate] at h ⊢
    exact rule_mono (fun x _ => hdims x) (fun d _ v => definitionRule_mono hdims) h

theorem evaluateDim_mono (hle : n ≤ m) (h : evaluateDim c n b = some dim) : evaluateDim c m b = some dim := by
  obtain ⟨outcome, ho, rfl⟩ := Option.map_eq_some_iff.mp h
  unfold evaluateDim
  rw [evaluate_mono hle ho]
  rfl

theorem evaluateDefinition_mono (hle : n ≤ m) (h : evaluateDefinition c n d = some dim) :
    evaluateDefinition c m d = some dim :=
  definitionRule_mono (fun _ _ => evaluateDim_mono hle) h

end Patchbay.Sizing
