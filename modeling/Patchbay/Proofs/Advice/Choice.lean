import Mathlib.Algebra.Order.Ring.Int
import Patchbay.Proofs.Advice.Filling
import Patchbay.Sizing

/-!
# Which operator advice proposes

Boxes that do not fit in sequence may fit with a merge or a split between them. Whether they do is decided twice: by the
dimensions, and by the numbers among the data of the diagnostic, which the rules of the advice table look at. Both agree
on all counts, zero included.
-/

open List

namespace Patchbay

/-! ## Rules of one kind -/

/-- The rules of the advice table for a kind, in order. -/
def advisors (kind : DiagnosticKind) : List Rule := standardRuleList.filter fun rule => rule.kind = kind

/-- The rule of the advice table with this name. -/
def ruleNamed (id : String) : Rule := (standardRules.get? id).getD default

/-- A field that shows the value with this name. -/
def TemplateField.named (name : String) : TemplateField := ⟨name.toList, none, []⟩

/-- Rules for other kinds do not matter. -/
theorem findSome?_advice? (d : Diagnostic) (rules : List Rule) :
    rules.findSome? (·.advice? d) = (rules.filter fun rule => rule.kind = d.kind).findSome? (·.advice? d) := by
  induction rules with
  | nil => rfl
  | cons rule rest ih =>
    by_cases hkind : rule.kind = d.kind
    · rw [filter_cons_of_pos (by simpa using hkind), findSome?_cons, findSome?_cons, ih]
    · rw [filter_cons_of_neg (by simpa using hkind), findSome?_cons, Rule.advice?_of_kind (Ne.symm hkind), ih]

/-- A finding that proposes nothing by itself gets the advice of the first rule for its kind that says something. -/
theorem annotate_eq (f : Finding) (hissue : f.issue.isPresentable) (hkind : f.issue.kind ≠ .grammar) :
    standardRules.annotate f.toDiagnostic = .ok { f.toDiagnostic with suggestion :=
      if f.toDiagnostic.hasSuggestion then f.issue.proposal
      else ((advisors f.issue.kind).findSome? (·.advice? f.toDiagnostic)).or f.issue.proposal } := by
  have hadvice : standardRules.advise f.toDiagnostic
      = .ok ((advisors f.issue.kind).findSome? (·.advice? f.toDiagnostic)) :=
    (advise_standardRules hissue fun hgrammar => absurd hgrammar hkind).trans (congrArg _ (findSome?_advice? _ _))
  unfold Rules.annotate
  by_cases hproposes : f.toDiagnostic.hasSuggestion
  · rw [if_pos hproposes, if_pos hproposes]
    rfl
  · rw [if_neg hproposes, if_neg hproposes, hadvice]
    cases (advisors f.issue.kind).findSome? (·.advice? f.toDiagnostic) with
    | none => rfl
    | some text => rfl

theorem annotate_of_no_proposal (f : Finding) (hissue : f.issue.isPresentable) (hkind : f.issue.kind ≠ .grammar)
    (hproposal : f.issue.proposal = none) :
    standardRules.annotate f.toDiagnostic
      = .ok { f.toDiagnostic with suggestion := (advisors f.issue.kind).findSome? (·.advice? f.toDiagnostic) } := by
  have hnone : f.toDiagnostic.suggestion = none := hproposal
  rw [annotate_eq f hissue hkind, if_neg (by simp [Diagnostic.hasSuggestion, hnone]), hproposal, Option.or_none]

/-! ## Patterns and conditions -/

variable (rule : Rule) (d : Diagnostic) {named : List (String × String)}

/-- A rule that applies is heard. -/
theorem Rule.advice?_eq_some (hkind : d.kind = rule.kind) (hcondition : rule.condition.holds d = .ok true)
    (hfound : rule.pattern.find? d.message = some named) : rule.advice? d = some (rule.text named d.data.entries) := by
  rw [Rule.advice?, if_pos ⟨hkind, hcondition⟩, hfound]
  rfl

/-- A rule that speaks where a condition holds. -/
theorem Rule.advice?_eq_ite {p : Prop} [Decidable p] (hkind : d.kind = rule.kind)
    (hcondition : rule.condition.holds d = .ok (decide p)) (hfound : rule.pattern.find? d.message = some named)
    {text : String} (htext : rule.text named d.data.entries = text) :
    rule.advice? d = if p then some text else none := by
  rw [Rule.advice?, hcondition, hfound]
  simp [hkind, htext]

theorem Rule.advice?_of_pattern (h : rule.pattern.find? d.message = none) : rule.advice? d = none := by
  rw [Rule.advice?, h]
  exact ite_self none

/-- A text at the start of a message is matched by the first alternative. -/
theorem Pattern.matchHere_exact (anchored : Bool) (text rest : String) (others : List (List PatternPiece)) :
    matchHere ⟨anchored, [.exact text] :: others⟩ (text ++ rest).toList = some [] := by
  rw [matchHere, findSome?_cons, String.toList_append, matchPieces_exact_append, matchPieces]

theorem Binary64.one_pos : 0 < one := by decide +kernel

/-- What matches at the start of a text is found there. -/
theorem Pattern.searchFrom_of_matchHere {p : Pattern} {cs : List Char} (h : p.matchHere cs = some named) :
    p.searchFrom cs = some named := by
  cases cs with
  | nil => exact h
  | cons c cs => rw [searchFrom, h]

/-- Counts are compared as numbers. -/
theorem dividesProperly_nat (part whole : Nat) :
    dividesProperly (.int part) (.int whole) = .ok (decide (0 < part ∧ part < whole ∧ part ∣ whole)) := by
  have hone : (0 : Int) < Binary64.one := Int.natCast_pos.mpr Binary64.one_pos
  have hpositive : (Datum.int part).isPositive = decide (0 < part) := by
    have hiff : 0 < (part : Int) * Binary64.one ↔ 0 < part := by
      rw [mul_pos_iff_of_pos_right hone, Int.natCast_pos]
    simp only [Datum.isPositive, Datum.units?, hiff]
  unfold dividesProperly
  rw [hpositive]
  simp only [Datum.units?, decide_eq_true_eq]
  split
  · rename_i hpart
    have hless : (part : Int) * Binary64.one < whole * Binary64.one ↔ part < whole := by
      rw [Int.mul_lt_mul_right hone, Int.ofNat_lt]
    have hdivides : (whole : Int) * Binary64.one % (part * Binary64.one) = 0 ↔ part ∣ whole := by
      rw [← Int.dvd_iff_emod_eq_zero, Int.mul_dvd_mul_iff_right hone.ne', Int.natCast_dvd_natCast]
    simp only [hless, hpart, Bool.beq_eq_decide_eq, hdivides, true_and, Bool.decide_and]
  · rename_i hpart
    simp [hpart]

/-! ## Boxes in sequence -/

section

variable {a b : Dimension}

theorem ne_of_compose_seq (h : Dimension.compose .seq a b = none) : a.outputs ≠ b.inputs := by
  intro heq
  rw [Dimension.compose, if_pos heq] at h
  simp at h

theorem compose_merge_isSome_iff : (Dimension.compose .merge a b).isSome ↔ b.inputs ∣ a.outputs := by
  by_cases hzero : b.inputs = 0
  · simp [Dimension.compose, hzero]
  · simp [Dimension.compose, hzero, Nat.dvd_iff_mod_eq_zero]

theorem compose_split_isSome_iff : (Dimension.compose .split a b).isSome ↔ a.outputs ∣ b.inputs := by
  by_cases hzero : a.outputs = 0
  · simp [Dimension.compose, hzero]
  · simp [Dimension.compose, hzero, Nat.dvd_iff_mod_eq_zero]

/-- Of two different counts one divides the other properly if both are positive. -/
theorem divides_properly_iff {part whole : Nat} (hne : part ≠ whole) :
    0 < part ∧ part < whole ∧ part ∣ whole ↔ 0 < part ∧ 0 < whole ∧ part ∣ whole := by
  constructor
  · rintro ⟨hpart, hless, hdivides⟩
    exact ⟨hpart, by omega, hdivides⟩
  · rintro ⟨hpart, hwhole, hdivides⟩
    have hle := Nat.le_of_dvd hwhole hdivides
    exact ⟨hpart, by omega, hdivides⟩

/-- Texts that differ somewhere at the start are different. -/
theorem append_ne_append {start start' : String} (n : Nat) {c d : Char} (h : start.toList[n]? = some c)
    (h' : start'.toList[n]? = some d) (hne : c ≠ d) (rest rest' : String) : start ++ rest ≠ start' ++ rest' := by
  intro heq
  have hchars := congrArg (fun text => text.toList[n]?) heq
  simp only [String.toList_append] at hchars
  rw [getElem?_append_left (List.getElem?_eq_some_iff.mp h).1,
    getElem?_append_left (List.getElem?_eq_some_iff.mp h').1, h, h'] at hchars
  exact hne (Option.some.inj hchars)

/-- The advice to merge signals. -/
def mergeAdvice (a b : Dimension) : String :=
  "Use ':>' to merge the " ++ (toString a.outputs ++ " signals into " ++ toString b.inputs)

/-- The advice to split signals. -/
def splitAdvice (a b : Dimension) : String :=
  "Use '<:' to distribute the " ++ (toString a.outputs ++ " signal(s) over " ++ toString b.inputs ++ " inputs")

/-- The advice to change one of the boxes. -/
def fitAdvice (a b : Dimension) : String :=
  "Make A produce " ++ (toString b.inputs ++ " output(s) or B accept " ++ toString a.outputs ++ " input(s)")

/-- Rules compare the counts of a sequence that does not fit. -/
theorem Condition.holds_sequential (position : Position) (a b : Dimension) :
    Condition.mergeFits.holds (Finding.toDiagnostic ⟨position, .badComposition .seq a b⟩)
      = .ok (decide (0 < b.inputs ∧ b.inputs < a.outputs ∧ b.inputs ∣ a.outputs))
    ∧ Condition.splitFits.holds (Finding.toDiagnostic ⟨position, .badComposition .seq a b⟩)
      = .ok (decide (0 < a.outputs ∧ a.outputs < b.inputs ∧ a.outputs ∣ b.inputs)) := by
  have houtputs : ((Finding.toDiagnostic ⟨position, .badComposition .seq a b⟩).data.get? "outputs").getD (.int 0)
      = .int a.outputs := rfl
  have hinputs : ((Finding.toDiagnostic ⟨position, .badComposition .seq a b⟩).data.get? "inputs").getD (.int 0)
      = .int b.inputs := rfl
  have hsubtype : (Finding.toDiagnostic ⟨position, .badComposition .seq a b⟩).subtype = some .sequential := rfl
  unfold Condition.holds
  simp only [houtputs, hinputs, hsubtype, if_true]
  exact ⟨dividesProperly_nat b.inputs a.outputs, dividesProperly_nat a.outputs b.inputs⟩

theorem message_sequential (a b : Dimension) :
    ∃ rest, (Issue.badComposition .seq a b).message = "Sequential" ++ rest := by
  refine ⟨" composition A : B requires outputs(A) == inputs(B), "
    ++ ("but A has " ++ plural a.outputs "output" ++ " and B has " ++ plural b.inputs "input"), ?_⟩
  show violation .seq a b = _
  rw [← String.append_assoc]
  congr 1

/-- What a template with two fields says. -/
theorem Rule.text_of_parts {rule : Rule} {before between behind first second : String}
    (hparts : Template.parts rule.template.toList
      = [.text before, .field (.named first), .text between, .field (.named second), .text behind])
    (data : List (String × Datum)) {values : List (String × Datum)}
    (hvalues : named.map (fun part => (part.1, Datum.text part.2)) ++ data = values) :
    rule.text named data = before ++ (TemplatePart.filled values (.field (.named first)) ++ between
      ++ TemplatePart.filled values (.field (.named second)) ++ behind) := by
  rw [Rule.text, hparts, hvalues]
  simp [TemplatePart.filled, String.append_assoc]

/-- What the rules on sequences say. -/
theorem text_sequential (a b : Dimension) :
    (ruleNamed "sequential_merge").text [] (Issue.badComposition .seq a b).data = mergeAdvice a b
    ∧ (ruleNamed "sequential_split").text [] (Issue.badComposition .seq a b).data = splitAdvice a b
    ∧ (ruleNamed "sequential").text [] (Issue.badComposition .seq a b).data = fitAdvice a b := by
  have hmerge : Template.parts (ruleNamed "sequential_merge").template.toList = [.text "Use ':>' to merge the ",
      .field (.named "outputs"), .text " signals into ", .field (.named "inputs"), .text ""] := by decide +kernel
  have hsplit : Template.parts (ruleNamed "sequential_split").template.toList = [.text "Use '<:' to distribute the ",
      .field (.named "outputs"), .text " signal(s) over ", .field (.named "inputs"), .text " inputs"] := by
    decide +kernel
  have hfit : Template.parts (ruleNamed "sequential").template.toList = [.text "Make A produce ",
      .field (.named "inputs"), .text " output(s) or B accept ", .field (.named "outputs"), .text " input(s)"] := by
    decide +kernel
  rw [Rule.text_of_parts hmerge _ rfl, Rule.text_of_parts hsplit _ rfl, Rule.text_of_parts hfit _ rfl]
  exact ⟨congrArg _ String.append_empty, rfl, rfl⟩

/-- What is advised on a sequence that does not fit, by its counts. -/
def sequentialAdvice (a b : Dimension) : String :=
  if 0 < b.inputs ∧ b.inputs < a.outputs ∧ b.inputs ∣ a.outputs then mergeAdvice a b
  else if 0 < a.outputs ∧ a.outputs < b.inputs ∧ a.outputs ∣ b.inputs then splitAdvice a b
  else fitAdvice a b

/-- The three texts are different, so each tells what the counts are like. -/
theorem sequentialAdvice_iff (a b : Dimension) :
    (sequentialAdvice a b = mergeAdvice a b ↔ 0 < b.inputs ∧ b.inputs < a.outputs ∧ b.inputs ∣ a.outputs)
    ∧ (sequentialAdvice a b = splitAdvice a b ↔ 0 < a.outputs ∧ a.outputs < b.inputs ∧ a.outputs ∣ b.inputs)
    ∧ (sequentialAdvice a b = fitAdvice a b ↔ ¬ (0 < b.inputs ∧ b.inputs < a.outputs ∧ b.inputs ∣ a.outputs)
      ∧ ¬ (0 < a.outputs ∧ a.outputs < b.inputs ∧ a.outputs ∣ b.inputs)) := by
  have hmergeSplit : mergeAdvice a b ≠ splitAdvice a b :=
    append_ne_append 5 (by simp : _ = some ':') (by simp : _ = some '<') (by decide) _ _
  have hmergeFit : mergeAdvice a b ≠ fitAdvice a b :=
    append_ne_append 0 (by simp : _ = some 'U') (by simp : _ = some 'M') (by decide) _ _
  have hsplitFit : splitAdvice a b ≠ fitAdvice a b :=
    append_ne_append 0 (by simp : _ = some 'U') (by simp : _ = some 'M') (by decide) _ _
  unfold sequentialAdvice
  by_cases hmerge : 0 < b.inputs ∧ b.inputs < a.outputs ∧ b.inputs ∣ a.outputs
  · have hsplit : ¬ (0 < a.outputs ∧ a.outputs < b.inputs ∧ a.outputs ∣ b.inputs) := fun h => by omega
    simp [hmerge, hsplit, hmergeSplit, hmergeFit]
  · by_cases hsplit : 0 < a.outputs ∧ a.outputs < b.inputs ∧ a.outputs ∣ b.inputs
    · simp [hmerge, hsplit, hmergeSplit.symm, hsplitFit]
    · simp [hmerge, hsplit, hmergeFit.symm, hsplitFit.symm]

/-- Of three rules the third one always speaks, the others under a condition. -/
theorem findSome?_three {f : Rule → Option String} {rules rest : List Rule} {first second third : Rule}
    (hrules : rules = first :: second :: third :: rest) {p q : Prop} [Decidable p] [Decidable q] {x y z : String}
    (hfirst : f first = if p then some x else none) (hsecond : f second = if q then some y else none)
    (hthird : f third = some z) : rules.findSome? f = some (if p then x else if q then y else z) := by
  rw [hrules, findSome?_cons, findSome?_cons, findSome?_cons, hfirst, hsecond, hthird]
  by_cases hp : p
  · rw [if_pos hp, if_pos hp]
  · rw [if_neg hp, if_neg hp]
    by_cases hq : q
    · rw [if_pos hq, if_pos hq]
    · rw [if_neg hq, if_neg hq]

theorem advice_sequential (position : Position) (a b : Dimension) :
    (advisors .dimension).findSome? (·.advice? (Finding.toDiagnostic ⟨position, .badComposition .seq a b⟩))
      = some (sequentialAdvice a b) := by
  obtain ⟨rest, hrules⟩ : ∃ rest, advisors .dimension
      = ruleNamed "sequential_merge" :: ruleNamed "sequential_split" :: ruleNamed "sequential" :: rest := ⟨_, rfl⟩
  obtain ⟨htext, htext', htext''⟩ := text_sequential a b
  obtain ⟨behind, hmessage⟩ := message_sequential a b
  obtain ⟨hmerge, hsplit⟩ := Condition.holds_sequential position a b
  have hstart : (Pattern.atStart "Sequential").find? (Issue.badComposition .seq a b).message = some [] := by
    rw [hmessage]
    exact Pattern.matchHere_exact true "Sequential" behind []
  have hword : Pattern.find? ⟨false, [[.exact "Sequential"], [.exact "seq()"]]⟩ (Issue.badComposition .seq a b).message
      = some [] := by
    rw [hmessage]
    exact Pattern.searchFrom_of_matchHere (Pattern.matchHere_exact false "Sequential" behind _)
  exact findSome?_three hrules ((ruleNamed "sequential_merge").advice?_eq_ite _ rfl hmerge hstart htext)
    ((ruleNamed "sequential_split").advice?_eq_ite _ rfl hsplit hstart htext')
    (((ruleNamed "sequential").advice?_eq_some (Finding.toDiagnostic ⟨position, .badComposition .seq a b⟩) rfl rfl
      hword).trans (congrArg some htext''))

/-- Advice on a sequence proposes an operator that fits. The boxes `left : right` have dimensions `a` and `b`, which do
not fit in sequence, and their counts can be written. What is reported then is annotated with advice to merge if a merge
fits and there are signals on both sides, with advice to split if a split fits, and otherwise with advice to change a
box. All three name both counts. A merge and a split never fit both. -/
theorem sequential_advice (c : Sizing.Context) (s : Sizing.State) (mark : Mark) (left right : Box) (a b : Dimension)
    (hleft : s.dim? left = some a) (hright : s.dim? right = some b) (hparameter : Sizing.isParameter c right = false)
    (hcompose : Dimension.compose .seq a b = none) (hwritable : (Issue.badComposition .seq a b).isWritable = true) :
    ∃ f text, Sizing.sizeComposition c s mark .seq left right = (none, { s with findings := s.findings ++ [f] })
      ∧ standardRules.annotate f.toDiagnostic = .ok { f.toDiagnostic with suggestion := some text }
      ∧ (text = mergeAdvice a b ↔ 0 < a.outputs ∧ 0 < b.inputs ∧ (Dimension.compose .merge a b).isSome = true)
      ∧ (text = splitAdvice a b ↔ 0 < a.outputs ∧ 0 < b.inputs ∧ (Dimension.compose .split a b).isSome = true)
      ∧ (text = fitAdvice a b ↔ ¬ (0 < a.outputs ∧ 0 < b.inputs ∧ (Dimension.compose .merge a b).isSome = true)
        ∧ ¬ (0 < a.outputs ∧ 0 < b.inputs ∧ (Dimension.compose .split a b).isSome = true))
      ∧ ¬ (0 < a.outputs ∧ 0 < b.inputs ∧ (Dimension.compose .merge a b).isSome = true
        ∧ (Dimension.compose .split a b).isSome = true) := by
  have hne := ne_of_compose_seq hcompose
  have hmerge : 0 < b.inputs ∧ b.inputs < a.outputs ∧ b.inputs ∣ a.outputs
      ↔ 0 < a.outputs ∧ 0 < b.inputs ∧ (Dimension.compose .merge a b).isSome = true := by
    rw [compose_merge_isSome_iff, divides_properly_iff hne.symm, and_left_comm]
  have hsplit : 0 < a.outputs ∧ a.outputs < b.inputs ∧ a.outputs ∣ b.inputs
      ↔ 0 < a.outputs ∧ 0 < b.inputs ∧ (Dimension.compose .split a b).isSome = true := by
    rw [compose_split_isSome_iff, divides_properly_iff hne]
  have hissue : (Issue.badComposition .seq a b).isPresentable = true := by
    rw [Issue.isPresentable, hwritable]
    rfl
  have hannotate := annotate_of_no_proposal ⟨mark.position, .badComposition .seq a b⟩ hissue (by simp [Issue.kind]) rfl
  rw [show Issue.kind (Finding.issue ⟨mark.position, .badComposition .seq a b⟩) = .dimension from rfl,
    advice_sequential] at hannotate
  refine ⟨⟨mark.position, .badComposition .seq a b⟩, sequentialAdvice a b, ?_, hannotate, ?_⟩
  · simp [Sizing.sizeComposition, hleft, hright, hparameter, hcompose, Sizing.State.report]
  · rcases sequentialAdvice_iff a b with ⟨hm, hs, hf⟩
    rw [hmerge] at hm hf
    rw [hsplit] at hs hf
    refine ⟨hm, hs, hf, ?_⟩
    rintro ⟨houtputs, hinputs, hmergeFits, hsplitFits⟩
    have hless := hmerge.mpr ⟨houtputs, hinputs, hmergeFits⟩
    have hless' := hsplit.mpr ⟨houtputs, hinputs, hsplitFits⟩
    omega

/-- Two names, of which the first gives four signals and the second takes two. -/
def fourIntoTwo : Sizing.State := { Sizing.State.start with dims := .ofList [(1, ⟨0, 4⟩), (2, ⟨2, 1⟩)] }

/-- Four signals can be merged into two. -/
theorem sequential_advice_fourIntoTwo :
    ∃ f text, Sizing.sizeComposition ⟨default, .empty⟩ fourIntoTwo ⟨3, ⟨1, 13⟩, false⟩ .seq
        (.ref ⟨1, ⟨1, 11⟩, false⟩ "a") (.ref ⟨2, ⟨1, 15⟩, false⟩ "b")
      = (none, { fourIntoTwo with findings := fourIntoTwo.findings ++ [f] })
      ∧ standardRules.annotate f.toDiagnostic = .ok { f.toDiagnostic with suggestion := some text }
      ∧ text = "Use ':>' to merge the 4 signals into 2" := by
  rcases sequential_advice ⟨default, .empty⟩ fourIntoTwo ⟨3, ⟨1, 13⟩, false⟩ (.ref ⟨1, ⟨1, 11⟩, false⟩ "a")
    (.ref ⟨2, ⟨1, 15⟩, false⟩ "b") ⟨0, 4⟩ ⟨2, 1⟩ rfl rfl rfl rfl (by decide +kernel)
    with ⟨f, text, hsized, hannotated, hmerge, -⟩
  refine ⟨f, text, hsized, hannotated, (hmerge.mpr (by decide)).trans ?_⟩
  decide +kernel

end

end Patchbay
