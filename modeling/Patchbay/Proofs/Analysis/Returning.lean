import Patchbay.Analysis
import Patchbay.Proofs.Advice.Filling
import Patchbay.Proofs.Analysis.Controls
import Patchbay.Proofs.Parser.Growth
import Patchbay.Proofs.Sizing.Faultless

/-!
# The analysis returns a report

With the tables of the language and without a deadline, the analysis of a text gives a report. It can fail
for numbers that no double or no count can hold, for a block that is not closed, and for counts of too many digits.
For everything else the stages hand each other what they need.
-/

open List

namespace Patchbay

variable {p : Program} {tokens : List Token} {findings : List Finding} {maxDepth : Int}

/-! ## Numbers -/

variable {issue : Issue} {source : String} {f : Finding} {value : Binary64} {settings : Settings} {d : Dimension}

/-- All numbers of a program that is read from finite numerals are finite. -/
theorem Program.isFinite_of_parse (hparse : Program.parse tokens maxDepth = .ok (p, findings))
    (hnumbers : ∀ t ∈ tokens, t.kind = .number → ∃ value, Number.ofNumeral? t.text.toList = some value ∧ value.isFinite)
    {mark : Mark} {text : String} (h : Node.box (.number mark value text) ∈ p.nodes) : value.isFinite := by
  obtain ⟨t, ht, hkind, hvalue⟩ := readFrom_of_parse hparse h
  obtain ⟨read, hread, hfinite⟩ := hnumbers t ht hkind
  have htoken : t.value = read := by
    rw [Token.value, hread]
    rfl
  rw [htoken] at hvalue
  rcases hvalue with rfl | rfl
  · exact hfinite
  · cases read with
    | finite negative units => rfl
    | infinite | nan => exact absurd hfinite Bool.false_ne_true

/-- The ranges of controls in a program with finite numbers are finite. -/
theorem Program.isFinite_of_mem_controls (primitives : Primitives) (available : Libraries)
    (hids : (p.nodes.map (·.mark.id)).Nodup)
    (hfinite : ∀ mark value text, Node.box (.number mark value text) ∈ p.nodes → value.isFinite) {c : Control}
    (hc : c ∈ p.controls (p.resolve primitives available).1) (hvalue : value ∈ c.numbers) : value.isFinite := by
  obtain ⟨mark, name, args, label, groups, owner, hcall, -, rfl⟩ := Program.among_of_mem_controls hc
  obtain ⟨a, ha, hconstant⟩ := Resolution.exists_arg_of_mem_numbers hvalue
  have harg : Node.box a ∈ p.nodes := p.partsIn_nodes _ hcall _ (by simp [Node.children, ha])
  obtain ⟨mark', text, hnumber⟩ := p.exists_number_of_constant? hids rfl harg hconstant
  exact hfinite mark' value text hnumber

/-! ## Findings -/

theorem kind_of_mem_scan (h : f ∈ (scan source).2) : f.issue.kind = .lexical := by
  have hfrom : ∀ (segments : List Segment) (position : Position),
      f ∈ Scan.findingsFrom position segments → f.issue.kind = .lexical := by
    intro segments
    induction segments with
    | nil => exact fun position h => absurd h (by simp [Scan.findingsFrom])
    | cons segment rest ih =>
      intro position h
      rw [Scan.findingsFrom] at h
      split at h
      · rename_i issue hissue
        rcases mem_cons.mp h with rfl | h
        · unfold Scan.segmentIssue at hissue
          split at hissue
          · obtain rfl := Option.some.inj hissue
            unfold Scan.badCharacter
            split <;> rfl
          · obtain rfl := Option.some.inj hissue
            rfl
          · simp at hissue
        · exact ih _ h
      · exact ih _ h
  exact hfrom _ _ h

/-- Only dimensions bring counts that may have too many digits. -/
theorem Issue.isPresentable_of_kind (h : issue.kind ≠ .dimension) : issue.isPresentable := by
  cases issue with
  | badComposition | tooManySignals | argumentCount | badChain => exact absurd rfl h
  | _ => rfl

/-- User-interface boxes ask for few arguments. -/
theorem isWritable_uiArgs : ∀ p ∈ standardPrimitiveList, ∀ expected ∈ p.uiArgs,
    Number.isWritable expected.natAbs := by
  decide +kernel

theorem uiArgs_groups : ∀ name ∈ groups, (standardPrimitives.get? name).bind (·.uiArgs) = some 2 := by
  decide +kernel

/-- What sizing reports is about cycles, dimensions or feedback. It can be presented if it can be written. -/
theorem Sizing.Reported.spec {c : Context} (hc : c.primitives = standardPrimitives) (h : Reported c issue) :
    issue.kind ∈ [.circular, .dimension, .causality] ∧ (issue.isWritable → issue.isPresentable)
      ∧ (issue.kind = .dimension → issue.subtype.isSome) := by
  cases issue with
  | circularDefinition | feedbackWithoutDelay => exact ⟨by simp [Issue.kind], fun _ => rfl, by simp [Issue.kind]⟩
  | tooManySignals | badChain =>
    refine ⟨by simp [Issue.kind], ?_, fun _ => rfl⟩
    intro hwritable
    exact Bool.and_eq_true_iff.mpr ⟨hwritable, rfl⟩
  | badComposition op left right =>
    refine ⟨by simp [Issue.kind], ?_, ?_⟩
    · intro hwritable
      exact Bool.and_eq_true_iff.mpr ⟨hwritable, rfl⟩
    · intro _
      cases op with
      | par => exact absurd rfl h
      | seq | split | merge | recur => rfl
  | argumentCount name expected got =>
    refine ⟨by simp [Issue.kind], ?_, fun _ => rfl⟩
    intro hwritable
    have hexpected : (c.primitives.get? name).bind (·.uiArgs) = some expected := h
    rw [hc] at hexpected
    obtain ⟨primitive, hget, huiArgs⟩ := Option.bind_eq_some_iff.mp hexpected
    obtain ⟨listed, hlisted, hentry⟩ := mem_map.mp (Table.mem_of_find? hget)
    obtain ⟨-, rfl⟩ := Prod.mk.inj hentry
    exact Bool.and_eq_true_iff.mpr ⟨hwritable, isWritable_uiArgs listed hlisted expected huiArgs⟩
  | _ => simp [Reported] at h

/-! ## Dimensions -/

/-- Feedback leaves the inputs that it does not feed: nothing is subtracted from less. -/
theorem Dimension.inputs_of_compose_recur {a b : Dimension} (h : Dimension.compose .recur a b = some d) :
    d.inputs + b.outputs = a.inputs := by
  simp only [Dimension.compose] at h
  split at h
  · simp at h
  · obtain rfl := Option.some.inj h
    show a.inputs - b.outputs + b.outputs = a.inputs
    omega

/-- A call leaves the inputs that its arguments do not feed: nothing is subtracted from less. -/
theorem Sizing.inputs_of_callDimension {callee : Dimension} {args : List Dimension}
    (h : callDimension callee args = some d) :
    d.inputs + Dimension.total (·.outputs) args = Dimension.total (·.inputs) args + callee.inputs := by
  unfold callDimension at h
  dsimp only at h
  split at h
  · simp at h
  · obtain rfl := Option.some.inj h
    show Dimension.total (·.inputs) args + callee.inputs - Dimension.total (·.outputs) args
      + Dimension.total (·.outputs) args = _
    omega

/-! ## Reports -/

/-- What the sizing of a program comes to when nothing stops it. -/
structure Sizing.Concluded (s : State) : Prop where
  fault : s.fault = none
  frames : s.frames = []
  subtypes : ∀ f ∈ s.findings, f.issue.kind = .dimension → f.issue.subtype.isSome = true
  cycles : ∀ position cycle defined, ⟨position, .circularDefinition cycle defined⟩ ∈ s.findings → cycle ≠ []

/-- Findings that can be presented and are about no unclosed block make a report. -/
theorem aggregate_isOk {findings : List Finding} (hpresentable : ∀ f ∈ findings, f.issue.isPresentable)
    (hbrace : ∀ f ∈ findings, f.issue.kind = .grammar → ¬ "Unclosed '\x7b'".toList <:+: f.issue.message.toList)
    (outline : Option Outline) (limit : Int) (digest : Option String) :
    ∃ report, Report.aggregate standardRules (findings.map Finding.toDiagnostic) outline limit digest = .ok report := by
  have hannotate : ∀ d ∈ findings.map Finding.toDiagnostic, ∃ d', standardRules.annotate d = .ok d' := by
    intro d hd
    obtain ⟨f, hf, rfl⟩ := mem_map.mp hd
    exact annotate_isOk (hpresentable f hf) (hbrace f hf)
  obtain ⟨annotated, hannotated⟩ := annotateAll_isOk hannotate
  refine ⟨Report.ofAnnotated annotated outline limit digest, ?_⟩
  unfold Report.aggregate
  rw [hannotated]
  rfl

/-- The end of sizing a program with the boxes of the language. -/
def Program.sized (p : Program) (available : Libraries) : Sizing.State :=
  Sizing.sizeProgram (Sizing.programSizing standardPrimitives available p) p

/-- Sizing comes to a conclusion in a program with finite numbers. -/
theorem Program.concluded_sized (available : Libraries) (hids : (p.nodes.map (·.mark.id)).Nodup)
    (hfinite : ∀ mark value text, Node.box (.number mark value text) ∈ p.nodes → value.isFinite) :
    Sizing.Concluded (p.sized available) := by
  obtain ⟨hfault, hframes, hreported⟩ :=
    Sizing.sizeProgram_faultless standardPrimitives available hids hfinite uiArgs_groups
  refine ⟨hfault, hframes, ?_, ?_⟩
  · intro f hf
    exact ((hreported f hf).spec rfl).2.2
  · intro position cycle defined hf
    exact hreported _ hf

/-- A program with finite numbers has dimensions if the findings can be written. -/
theorem Program.dimensions_eq_sized (available : Libraries) (hids : (p.nodes.map (·.mark.id)).Nodup)
    (hfinite : ∀ mark value text, Node.box (.number mark value text) ∈ p.nodes → value.isFinite)
    (hwritable : ∀ f ∈ (p.sized available).findings, f.issue.isWritable) :
    p.dimensions (p.resolve standardPrimitives available).1 standardPrimitives = .ok (p.sized available) := by
  obtain ⟨hfault, -⟩ := Sizing.sizeProgram_faultless standardPrimitives available hids hfinite uiArgs_groups
  exact Sizing.dimensions_eq_ok_iff.mpr ⟨rfl, hfault, all_eq_true.mpr hwritable⟩

/-- The findings of an analysis can be presented if those of sizing can be written. Only reading a program finds
unclosed blocks, it is known where a dimension does not fit, ranges are those of controls, and unknown libraries are
compared with the ones there are. -/
theorem Registry.presentable_of_writable {ranges : List Finding} {controls : List Control}
    (hparse : Program.parse (scan source).1 settings.maxDepth = .ok (p, findings))
    (hranges : rangeFindings controls = .ok ranges)
    (hwritable : ∀ f ∈ (p.sized settings.libraries).findings, f.issue.isWritable)
    (hf : f ∈ (scan source).2 ++ findings ++ (p.resolve standardPrimitives settings.libraries).2
      ++ (p.sized settings.libraries).findings ++ ranges ++ pathFindings controls) :
    f.issue.isPresentable ∧ (f.issue.kind = .grammar → f ∈ findings)
      ∧ (f.issue.kind = .dimension → f.issue.subtype.isSome)
      ∧ (f.issue.kind = .range → ∃ c : Control, c.rangeIssue? = some f.issue)
      ∧ (f.issue.kind = .library →
          ∃ path, f.issue = .unknownLibrary path (Lexical.similarLibrary? settings.libraries path)) := by
  simp only [mem_append] at hf
  rcases hf with ((((hf | hf) | hf) | hf) | hf) | hf
  · have hkind := kind_of_mem_scan hf
    exact ⟨Issue.isPresentable_of_kind (by simp [hkind]), by simp [hkind]⟩
  · have hkind := Program.grammatical_of_parse hparse f hf
    exact ⟨Issue.isPresentable_of_kind (by simp [hkind]), fun _ => hf, by simp [hkind]⟩
  · rcases Lexical.kind_of_mem_resolve hf with ⟨hkind, hpath⟩ | hkind | hkind
    · exact ⟨Issue.isPresentable_of_kind (by simp [hkind]), by simp [hkind], by simp [hkind],
        by simp [hkind], fun _ => hpath⟩
    all_goals exact ⟨Issue.isPresentable_of_kind (by simp [hkind]), by simp [hkind]⟩
  · have hids := Program.nodup_ids_of_parse hparse
    obtain ⟨hhistory, -⟩ := Sizing.sizeProgram_ends standardPrimitives settings.libraries hids _ rfl
    obtain ⟨hkind, hpresentable, hsubtype⟩ := (hhistory.reported f hf).spec rfl
    exact ⟨hpresentable (hwritable f hf), fun h => by simp [h] at hkind, hsubtype, fun h => by simp [h] at hkind,
      fun h => by simp [h] at hkind⟩
  · have hkind := kind_of_mem_rangeFindings hranges hf
    obtain ⟨c, -, -, hissue, -⟩ := exists_control_of_mem_rangeFindings hranges hf
    exact ⟨Issue.isPresentable_of_kind (by simp [hkind]), by simp [hkind], by simp [hkind], fun _ => ⟨c, hissue⟩,
      by simp [hkind]⟩
  · have hkind := kind_of_mem_clashesFrom hf
    exact ⟨Issue.isPresentable_of_kind (by simp [hkind]), by simp [hkind]⟩

/-- All that is found out about a text makes a report if the findings of sizing can be written. -/
theorem Registry.report_isOk (detail : Detail)
    (hparse : Program.parse (scan source).1 settings.maxDepth = .ok (p, findings))
    (hbrace : ∀ f ∈ findings, ¬ "Unclosed '\x7b'".toList <:+: f.issue.message.toList)
    (hfinite : ∀ mark value text, Node.box (.number mark value text) ∈ p.nodes → value.isFinite)
    (hwritable : ∀ f ∈ (p.sized settings.libraries).findings, f.issue.isWritable) :
    ∃ report, Registry.standard.report settings detail source = .ok report := by
  have hids := Program.nodup_ids_of_parse hparse
  have hdimensions := Program.dimensions_eq_sized settings.libraries hids hfinite hwritable
  have hcontrols : ∀ c ∈ p.controls (p.resolve standardPrimitives settings.libraries).1,
      ∀ value ∈ c.numbers, value.isFinite :=
    fun _ hc _ hvalue => Program.isFinite_of_mem_controls _ _ hids hfinite hc hvalue
  obtain ⟨ranges, hranges⟩ := rangeFindings_isOk hcontrols
  have hexamine : ∃ outline, Registry.standard.examine settings detail source = .ok
      ((scan source).2 ++ findings ++ (p.resolve standardPrimitives settings.libraries).2
        ++ (p.sized settings.libraries).findings ++ ranges
        ++ pathFindings (p.controls (p.resolve standardPrimitives settings.libraries).1), outline) := by
    refine ⟨p.outline (p.resolve standardPrimitives settings.libraries).1 (p.sized settings.libraries).dims detail
      (scan source).1 source, ?_⟩
    simp only [examine, Registry.standard, hparse, hdimensions, Program.outline, hranges, bind, Except.bind, pure,
      Except.pure]
  obtain ⟨outline, houtline⟩ := hexamine
  obtain ⟨report, hreport⟩ := aggregate_isOk
    (fun f hf => (presentable_of_writable hparse hranges hwritable hf).1)
    (fun f hf hkind => hbrace f ((presentable_of_writable hparse hranges hwritable hf).2.1 hkind))
    (some outline) settings.fixLimit (some (Digest.ofText source))
  refine ⟨report, ?_⟩
  simp only [Registry.report, houtline, bind, Except.bind]
  exact hreport

/-- A count with too many digits is the end of the analysis. -/
theorem Registry.report_eq_error (detail : Detail)
    (hparse : Program.parse (scan source).1 settings.maxDepth = .ok (p, findings))
    (hf : f ∈ (p.sized settings.libraries).findings) (hwritable : f.issue.isWritable = false) :
    Registry.standard.report settings detail source = .error .tooManyDigits := by
  have hall : ¬ ((p.sized settings.libraries).findings.all fun f => f.issue.isWritable) := by
    intro hall
    exact Bool.false_ne_true (hwritable.symm.trans (all_eq_true.mp hall f hf))
  have hdimensions : p.dimensions (p.resolve standardPrimitives settings.libraries).1 standardPrimitives
      = .error .tooManyDigits := if_neg hall
  simp only [Registry.report, examine, Registry.standard, hparse, hdimensions, bind, Except.bind]

/-- With the tables of the language and without a deadline, the analysis of a text whose numerals are finite doubles and
in which no block is reported as unclosed returns a report, whatever libraries there are. Sizing ends with nothing left
to do, no subtraction of counts is cut off, all dimensions that do not fit are told apart, and cycles are named. The one
way to fail that is left is that a count has too many digits to be written. -/
theorem Registry.analyze_returns (settings : Settings) (detail : Detail) (source : String)
    (htimeout : settings.timeout = none)
    (hnumbers : ∀ t ∈ (scan source).1, t.kind = .number →
      ∃ value, Number.ofNumeral? t.text.toList = some value ∧ value.isFinite = true)
    (hbrace : ∀ p findings, Program.parse (scan source).1 settings.maxDepth = .ok (p, findings) →
      ∀ f ∈ findings, ¬ "Unclosed '\x7b'".toList <:+: f.issue.message.toList) :
    ∃ p findings, Program.parse (scan source).1 settings.maxDepth = .ok (p, findings)
      ∧ Sizing.Concluded (p.sized settings.libraries)
      ∧ (∀ a b d, Dimension.compose .recur a b = some d → d.inputs + b.outputs = a.inputs)
      ∧ (∀ callee args d, Sizing.callDimension callee args = some d →
          d.inputs + Dimension.total (·.outputs) args = Dimension.total (·.inputs) args + callee.inputs)
      ∧ ((∃ report, Registry.standard.analyze settings detail source = .ok report)
        ∨ (Registry.standard.analyze settings detail source = .error .tooManyDigits
          ∧ ∃ f ∈ (p.sized settings.libraries).findings, f.issue.isWritable = false)) := by
  have hconvertible : ∀ t ∈ (scan source).1, t.kind = .number →
      (Number.ofNumeral? t.text.toList).isSome = true := by
    intro t ht hkind
    obtain ⟨value, hvalue, -⟩ := hnumbers t ht hkind
    rw [hvalue]
    rfl
  have hparse := Program.parse_eq_ok settings.maxDepth hconvertible
  generalize (Parser.run settings.maxDepth (scan source).1).1 = p at hparse
  generalize (Parser.run settings.maxDepth (scan source).1).2.findings = findings at hparse
  have hids := Program.nodup_ids_of_parse hparse
  have hfinite : ∀ mark value text, Node.box (.number mark value text) ∈ p.nodes → value.isFinite = true :=
    fun _ _ _ h => Program.isFinite_of_parse hparse hnumbers h
  have hreport : Registry.standard.analyze settings detail source
      = Registry.standard.report settings detail source := by
    unfold analyze Settings.expired?
    rw [htimeout]
    rfl
  refine ⟨p, findings, hparse, Program.concluded_sized settings.libraries hids hfinite,
    fun _ _ _ => Dimension.inputs_of_compose_recur, fun _ _ _ => Sizing.inputs_of_callDimension, ?_⟩
  rw [hreport]
  by_cases hwritable : ∀ f ∈ (p.sized settings.libraries).findings, f.issue.isWritable = true
  · exact .inl (report_isOk detail hparse (hbrace p findings hparse) hfinite hwritable)
  · obtain ⟨f, hf, hissue⟩ : ∃ f ∈ (p.sized settings.libraries).findings, f.issue.isWritable = false := by
      simpa using hwritable
    exact .inr ⟨report_eq_error detail hparse hf hissue, f, hf, hissue⟩

/-- A text with a sequence that does not fit, a name that stands for nothing, and a semicolon that is missing. -/
def unfinished : String := "process = (_ <: _, _ : _), g; x = 1"

/-- Settings without libraries and without a deadline. -/
def bareSettings : Settings := { Settings.standard with dictionary := some .empty }

/-- The analysis of `unfinished` returns a report, although each stage finds something. -/
theorem Registry.analyze_returns_unfinished :
    (Program.parse (scan unfinished).1 bareSettings.maxDepth).map (·.2)
      = .ok [⟨⟨1, 36⟩, .missingSemicolon "definition of 'x'" none⟩]
    ∧ ∃ report, Registry.standard.analyze bareSettings .basic unfinished = .ok report := by
  have hfindings : (Program.parse (scan unfinished).1 bareSettings.maxDepth).map (·.2)
      = .ok [⟨⟨1, 36⟩, .missingSemicolon "definition of 'x'" none⟩] := by
    decide +kernel
  have hwritable : (Program.parse (scan unfinished).1 bareSettings.maxDepth).map
      (fun read => (read.1.sized bareSettings.libraries).findings.all fun f => f.issue.isWritable) = .ok true := by
    decide +kernel
  have hnumbers : ∀ t ∈ (scan unfinished).1, t.kind = .number →
      (Number.ofNumeral? t.text.toList).any (·.isFinite) = true := by
    decide +kernel
  obtain ⟨p, findings, hparse, -, -, -, hanalyze⟩ := Registry.analyze_returns bareSettings .basic unfinished rfl
    (fun t ht hkind => (Option.any_eq_true _ _).mp (hnumbers t ht hkind))
    (by
      intro p findings hparse f hf
      rw [hparse] at hfindings
      obtain rfl : findings = _ := Except.ok.inj hfindings
      rw [mem_singleton.mp hf]
      decide +kernel)
  refine ⟨hfindings, ?_⟩
  rcases hanalyze with hreport | ⟨-, f, hf, hissue⟩
  · exact hreport
  · rw [hparse] at hwritable
    have hall := all_eq_true.mp (Except.ok.inj hwritable) f hf
    exact absurd (hissue.symm.trans hall) Bool.false_ne_true

end Patchbay
