import Patchbay.Proofs.Advice.Wording
import Patchbay.Proofs.Analysis.Sites

/-!
# What is suggested

A rule of the advice table is chosen by the message of a diagnostic, and a message quotes names, labels and paths of the
program. Names are cut from the text and have no quotes, so the rules for them are found. A path or the name of a
library may be empty or have quotes, and a label may look like the words of a rule: what is suggested then depends on
these texts, and otherwise on what was found alone.
-/

open List

namespace Patchbay

variable {source name : String} {f : Finding} {d : Diagnostic} {p : Program}

/-! ## Names -/

theorem Scan.quote_not_mem_of_nameLength {cs : List Char} (h : nameLength cs = cs.length) : '\'' ∉ cs := by
  fun_induction nameLength cs with
  | case1 c cs hc ih | case3 c cs _ hc ih =>
    have hne : '\'' ≠ c := by
      rintro rfl
      exact absurd hc (by decide)
    simp [hne, ih (by simpa using h)]
  | case2 | case4 => simp at h
  | case5 => simp

theorem Scan.quotable_of_identifier {t : Token} (ht : t ∈ (scan source).1) (hkind : t.kind = .identifier) :
    Quotable t.text := by
  have hsteady := steady_of_mem_scan ht
  refine ⟨hsteady.ne_empty, ?_⟩
  obtain ⟨c, cs, hcs, hlexeme⟩ := hsteady
  have hplain := hlexeme [] delimits_nil
  rw [hkind, append_nil] at hplain
  rcases lexeme_cases hplain with ⟨-, -, hoperator, -⟩ | ⟨-, hplain⟩
  · simp at hoperator
  · obtain ⟨hstart, hlength⟩ : isNameStart c ∧ nameLength cs = cs.length := by
      grind [plainLexeme]
    have hne : '\'' ≠ c := by
      rintro rfl
      exact absurd hstart (by decide)
    simp [hcs, hne, quote_not_mem_of_nameLength hlength]

theorem quotable_of_isName (h : IsName (scan source).1 name) : Quotable name := by
  rcases h with rfl | ⟨t, ht, rfl, hkind | hbox⟩
  · exact ⟨by decide, by decide⟩
  · exact Scan.quotable_of_identifier ht hkind
  · have hoperators : ∀ tier < 9, ∀ text ∈ Grammar.arithmeticTier tier, '\'' ∉ text.toList := by decide +kernel
    refine ⟨(Scan.steady_of_mem_scan ht).ne_empty, ?_⟩
    rcases (Parser.isOperatorBox_iff t).mp hbox with ⟨tier, harithmetic⟩ | hcut
    · exact hoperators tier (Grammar.lt_of_mem_arithmeticTier harithmetic.text) _ harithmetic.text
    · have htext : t.kind = .operator ∧ t.text = "!" := by simpa [Token.isOperator] using hcut
      rw [htext.2]
      decide

theorem Issue.named_of_kind (issue : Issue) (h : issue.kind ≠ .undefined ∧ issue.kind ≠ .dimension) :
    issue.named? = none := by
  cases issue with
  | undefinedName | tooManySignals | argumentCount => simp [Issue.kind] at h
  | _ => rfl

/-- The names in findings of later stages are those of tokens. -/
theorem Finding.StandsAmong.quotable (h : f.StandsAmong p.sites) (hlocated : ∀ n ∈ p.nodes, n.Located (scan source).1) :
    ∀ name ∈ f.issue.named?, Quotable name := by
  intro name hname
  obtain ⟨b, hb, hb'⟩ := h.named name hname
  obtain ⟨hnode, hsite⟩ := mem_filter.mp hb
  exact quotable_of_isName ((hlocated _ hnode (by simpa [Node.isSite] using hsite)).2 name hb')

/-! ## Rules that apply -/

/-- No rule gives empty advice, unless it is on grammar. -/
theorem advice_ne_empty {kind : DiagnosticKind} (hkind : kind ≠ .grammar) {text : String}
    (h : (advisors kind).findSome? (·.advice? d) = some text) : text ≠ "" := by
  obtain ⟨rule, hrule, hadvice⟩ := exists_of_findSome?_eq_some h
  obtain ⟨hmem, hsame⟩ := mem_filter.mp hrule
  rcases plain_standardRuleList rule hmem with ⟨hgrammar, -⟩ | hplain
  · exact absurd ((of_decide_eq_true hsame).symm.trans hgrammar) hkind
  · rw [Rule.advice?] at hadvice
    split at hadvice
    · obtain ⟨named, -, rfl⟩ := Option.map_eq_some_iff.mp hadvice
      exact Rule.text_ne_empty hplain _ _
    · simp at hadvice

/-- The finding proposes something by itself, or a rule of the advice table applies to it. -/
def Finding.Advisable (f : Finding) : Prop :=
  f.toDiagnostic.hasSuggestion ∨ ∃ id rule, standardRules.get? id = some rule ∧ f.issue.kind = rule.kind
    ∧ rule.condition.holds f.toDiagnostic = .ok true ∧ (rule.pattern.find? f.issue.message).isSome

/-- A finding to which a rule applies gets a suggestion, be it by that rule or by one before it. -/
theorem Finding.Advisable.hasSuggestion (hf : f.Advisable) (hissue : f.issue.isPresentable)
    (hkind : f.issue.kind ≠ .grammar) (h : standardRules.annotate f.toDiagnostic = .ok d) : d.hasSuggestion := by
  by_cases hproposes : f.toDiagnostic.hasSuggestion
  · rw [(Rules.annotate_eq h).2 hproposes]
    exact hproposes
  · obtain ⟨id, rule, hrule, hsame, hcondition, hfound⟩ := hf.resolve_left hproposes
    rw [annotate_eq f hissue hkind, if_neg hproposes] at h
    obtain rfl := Except.ok.inj h
    obtain ⟨rule', hrule', heq⟩ := mem_map.mp (Table.mem_of_find? hrule)
    obtain rfl : rule' = rule := (Prod.mk.inj heq).2
    obtain ⟨named, hnamed⟩ := Option.isSome_iff_exists.mp hfound
    have hspeaks : ((advisors f.issue.kind).findSome? (·.advice? f.toDiagnostic)).isSome := by
      refine findSome?_isSome_iff.mpr ⟨rule', mem_filter.mpr ⟨hrule', by simp [hsame]⟩, ?_⟩
      rw [rule'.advice?_eq_some _ hsame hcondition hnamed]
      rfl
    obtain ⟨text, htext⟩ := Option.isSome_iff_exists.mp hspeaks
    simp [Diagnostic.hasSuggestion, htext, advice_ne_empty hkind htext]

/-- The text is not empty and does not start with a quote. -/
def StartsUnquoted (text : String) : Prop := ∃ c ∈ text.toList.head?, c ≠ '\''

/-- All before the next quote can be quoted. -/
theorem StartsUnquoted.exists_quotable {text : String} (h : StartsUnquoted text) :
    ∃ shown, Quotable shown ∧ (shown ++ "'").toList <+: (text ++ "'").toList := by
  obtain ⟨c, hc, hne⟩ := h
  by_cases hquote : '\'' ∈ text.toList
  · obtain ⟨run, rest, htext, hrun⟩ := eq_append_cons_of_mem hquote
    refine ⟨String.ofList run, ⟨?_, by simpa using hrun⟩, by simp [htext]⟩
    intro hempty
    rw [htext, show run = [] by simpa using hempty] at hc
    exact hne (by simpa using hc.symm)
  · refine ⟨text, ⟨?_, hquote⟩, prefix_refl _⟩
    rintro rfl
    cases hc

/-- What an issue has to say for a rule to apply: names and library names can be quoted, it is known how a dimension
does not fit, and paths do not start with a quote. -/
structure Issue.Tells (issue : Issue) : Prop where
  names : ∀ name ∈ issue.named?, Quotable name
  subtype : issue.kind = .dimension → issue.subtype.isSome
  path : ∀ path first, issue = .pathInUse path first → StartsUnquoted path
  library : ∀ path, issue = .unknownLibrary path none → Quotable path

/-- The rule for each issue is found by the words at the start of its message. -/
theorem Finding.advisable_of_tells (hf : f.issue.Tells) (hkind : f.issue.kind ∈
    [.undefined, .duplicate, .circular, .dimension, .causality, .range, .path, .library])
    (hrange : f.issue.kind ≠ .range) :
    f.Advisable := by
  obtain ⟨position, issue⟩ := f
  cases issue with
  | undefinedName name hint =>
    exact .inr ⟨"undefined_symbol", _, rfl, rfl, rfl, Pattern.find?_quotedRun (hf.names name rfl)
      (by delta Issue.message; simp)⟩
  | duplicateName name first =>
    left
    simp [Finding.toDiagnostic, Diagnostic.hasSuggestion, Issue.proposal]
  | circularDefinition cycle defined =>
    exact .inr ⟨"circular_definition", _, rfl, rfl, rfl, Pattern.find?_of_start mem_cons_self
      (by delta Issue.message; simp)⟩
  | badComposition op left right =>
    cases op with
    | par => exact absurd (hf.subtype rfl) (by simp [Issue.subtype])
    | seq => exact .inr ⟨"sequential", _, rfl, rfl, rfl, Pattern.find?_of_start mem_cons_self
        (by delta Issue.message violation; simp)⟩
    | split => exact .inr ⟨"split", _, rfl, rfl, rfl, Pattern.find?_of_start mem_cons_self
        (by delta Issue.message violation; simp)⟩
    | merge => exact .inr ⟨"merge", _, rfl, rfl, rfl, Pattern.find?_of_start mem_cons_self
        (by delta Issue.message violation; simp)⟩
    | recur => exact .inr ⟨"recursive", _, rfl, rfl, rfl, Pattern.find?_of_start mem_cons_self
        (by delta Issue.message violation; simp)⟩
  | tooManySignals name inputs supplied =>
    exact .inr ⟨"call_arity", _, rfl, rfl, rfl, Pattern.find?_quotedRun (hf.names name rfl)
      (by delta Issue.message; simp)⟩
  | argumentCount name expected got =>
    exact .inr ⟨"ui_arguments", _, rfl, rfl, rfl, Pattern.find?_quotedRun (hf.names name rfl)
      (by delta Issue.message; simp)⟩
  | badChain body =>
    exact .inr ⟨"sequential", _, rfl, rfl, rfl, Pattern.find?_of_start (mem_cons_of_mem _ mem_cons_self)
      (by delta Issue.message; simp)⟩
  | feedbackWithoutDelay =>
    exact .inr ⟨"causality", _, rfl, rfl, rfl,
      (by decide +kernel : ((Pattern.ofExact "contains no delay").find? Issue.feedbackWithoutDelay.message).isSome)⟩
  | pathInUse path first =>
    obtain ⟨shown, hshown, hstart⟩ := (hf.path path first rfl).exists_quotable
    have hmessage : "UI path '".toList ++ (path ++ "'").toList <+: (Issue.pathInUse path first).message.toList := by
      delta Issue.message
      simp
    refine .inr ⟨"duplicate_path", _, rfl, rfl, rfl, Pattern.find?_quotedRun hshown (IsPrefix.trans ?_ hmessage)⟩
    simpa using hstart
  | unknownLibrary path similar =>
    cases similar with
    | some similar =>
      left
      simp [Finding.toDiagnostic, Diagnostic.hasSuggestion, Issue.proposal]
    | none => exact .inr ⟨"import_not_found", _, rfl, rfl, rfl, Pattern.find?_quotedRun (hf.library path rfl)
        (by delta Issue.message; simp)⟩
  | minimumAboveMaximum | defaultOutsideRange => exact absurd rfl hrange
  | _ => simp [Issue.kind] at hkind

/-! ## Ranges -/

/-- The advice to exchange the ends of a range. -/
def swapAdvice : String := "Swap the min and max arguments"

/-- The advice on a default that is not in its range. -/
def choiceAdvice (low high : Binary64) : String :=
  "Choose a default between " ++ (amount low ++ " and " ++ amount high)

/-- What is advised on a range with these ends, by the words in the label of its control. -/
structure RangeAdvice (label : String) (low high : Binary64) (advice : Option String) : Prop where
  isSome : advice.isSome
  swap : advice = some swapAdvice ↔ high.lt low ∨ "greater than max".toList <:+: label.toList
  choice : high.lt low = false → ¬ "greater than max".toList <:+: label.toList → ¬ "range [".toList <:+: label.toList →
    advice = some (choiceAdvice low high)

section Ranges

variable (label : String) (low high initial : Binary64)

/-- Where the label and the ends of the range stand in a message on a default. -/
theorem message_default : (Issue.defaultOutsideRange label low high initial).message.toList
    = ("Default value " ++ amount initial ++ " of ").toList ++ '\'' :: (label.toList ++ '\'' ::
      (" is outside its ".toList ++ ("range [".toList ++ ((amount low).toList ++ ',' ::
        (' ' :: ((amount high).toList ++ [']'])))))) := by
  delta Issue.message
  simp

/-- The words that make a rule propose to exchange the ends stand in such a message only if the label has them. -/
theorem greater_default_iff :
    "greater than max".toList <:+: (Issue.defaultOutsideRange label low high initial).message.toList
      ↔ "greater than max".toList <:+: label.toList := by
  have hx (value : Binary64) : 'x' ∉ (amount value).toList := not_mem_amount (by decide) value
  rw [message_default]
  exact infix_quoted_iff (c := 'x') (by decide) (by decide) (by simp [hx]) (by simp [hx])

/-- The pattern of the ends of a range in a message. -/
def rangePattern : Pattern :=
  .ofPieces [.exact "range [", .upTo "low" ',', .exact ", ", .upTo "high" ']', .exact "]"]

theorem matchHere_range :
    rangePattern.matchHere
        ("range [".toList ++ ((amount low).toList ++ ',' :: (' ' :: ((amount high).toList ++ [']']))))
      = some [("low", amount low), ("high", amount high)] := by
  have hcomma (rest : List Char) : ',' :: ' ' :: rest = ", ".toList ++ rest := by simp
  have hclose : [']'] = "]".toList ++ [] := by simp
  rw [Pattern.matchHere, rangePattern, Pattern.ofPieces, findSome?_singleton, Pattern.matchPieces_exact_append,
    Pattern.matchPieces_upTo (numeric_amount low).ne_nil (not_mem_amount (by decide) low), hcomma,
    Pattern.matchPieces_exact_append,
    Pattern.matchPieces_upTo (numeric_amount high).ne_nil (not_mem_amount (by decide) high), hclose,
    Pattern.matchPieces_exact_append, Pattern.matchPieces]
  simp

/-- The ends of the range are found in a message on a default, and they are the ones at its end unless the label looks
like a range. -/
theorem find?_range :
    ∃ named, rangePattern.find? (Issue.defaultOutsideRange label low high initial).message = some named
    ∧ (¬ "range [".toList <:+: label.toList → named = [("low", amount low), ("high", amount high)]) := by
  have hmessage := message_default label low high initial
  have hsplit (a b front back : List Char) :
      a ++ '\'' :: (b ++ '\'' :: (front ++ back)) = (a ++ '\'' :: (b ++ '\'' :: front)) ++ back := by simp
  rw [hsplit] at hmessage
  have hhere := matchHere_range low high
  rw [Pattern.find?, if_neg (by decide), hmessage]
  obtain ⟨named, hnamed⟩ := Option.isSome_iff_exists.mp
    ((Pattern.searchFrom_isSome_iff _ _).mpr ⟨_, suffix_append _ _, Option.isSome_of_eq_some hhere⟩)
  refine ⟨named, hnamed, ?_⟩
  intro hlabel
  have hopen (value : Binary64) : '[' ∉ (amount value).toList := not_mem_amount (by decide) value
  have hfirst := Pattern.searchFrom_of_matchHere hhere
  unfold rangePattern at hnamed hfirst
  rw [Pattern.searchFrom_exact (by decide) ?_, hfirst] at hnamed
  · exact (Option.some.inj hnamed).symm
  · rwa [infix_quoted_iff (c := '[') (by decide) (by decide) (by simp [hopen]) (by decide)]

theorem advisors_range : advisors .range = [ruleNamed "min_above_max", ruleNamed "default_out_of_range"] := rfl

theorem parts_choice : Template.parts (ruleNamed "default_out_of_range").template.toList
    = [.text "Choose a default between ", .field (.named "low"), .text " and ", .field (.named "high"), .text ""] := by
  decide +kernel

theorem advice_swap (hkind : f.issue.kind = .range) (hword : "greater than max".toList <:+: f.issue.message.toList) :
    (ruleNamed "min_above_max").advice? f.toDiagnostic = some swapAdvice := by
  have hparts : Template.parts (ruleNamed "min_above_max").template.toList = [.text swapAdvice] := by decide +kernel
  obtain ⟨named, hnamed⟩ := Option.isSome_iff_exists.mp
    ((Pattern.find?_ofExact_isSome_iff "greater than max" f.issue.message).mpr hword)
  rw [Rule.advice?_eq_some _ _ hkind rfl hnamed, Rule.text, hparts]
  rfl

theorem advice_swap_of_not (hword : ¬ "greater than max".toList <:+: f.issue.message.toList) :
    (ruleNamed "min_above_max").advice? f.toDiagnostic = none :=
  Rule.advice?_of_pattern _ _ (Option.not_isSome_iff_eq_none.mp (mt (Pattern.find?_ofExact_isSome_iff _ _).mp hword))

variable {low high}

/-- The first rule looks for its words in the message, the second for the ends of the range. -/
theorem rangeAdvice_default (position : Position) (hless : high.lt low = false) :
    RangeAdvice label low high ((advisors .range).findSome?
      (·.advice? (Finding.toDiagnostic ⟨position, .defaultOutsideRange label low high initial⟩))) := by
  let f : Finding := ⟨position, .defaultOutsideRange label low high initial⟩
  have hgreater : "greater than max".toList <:+: f.issue.message.toList ↔ _ :=
    greater_default_iff label low high initial
  rw [advisors_range, findSome?_cons]
  by_cases hword : "greater than max".toList <:+: label.toList
  · rw [advice_swap rfl (hgreater.mpr hword)]
    exact ⟨rfl, iff_of_true rfl (.inr hword), fun _ hnot => absurd hword hnot⟩
  · rw [advice_swap_of_not (mt hgreater.mp hword)]
    obtain ⟨named, hfind, hnamed⟩ := find?_range label low high initial
    have hadvice := (ruleNamed "default_out_of_range").advice?_eq_some
      (Finding.toDiagnostic ⟨position, .defaultOutsideRange label low high initial⟩) rfl rfl hfind
    rw [Rule.text_of_parts parts_choice _ rfl] at hadvice
    simp only [findSome?_singleton, hadvice]
    refine ⟨rfl, iff_of_false ?_ (not_or.mpr ⟨by simp [hless], hword⟩), ?_⟩
    · intro heq
      have hhead := congrArg (·.toList.head?) (Option.some.inj heq)
      simp [swapAdvice] at hhead
    · intro _ _ hrange
      rw [hnamed hrange]
      exact congrArg (fun text => some ("Choose a default between " ++ text)) String.append_empty

end Ranges

/-- The diagnostic shows the label and the ends of a range, and what is advised on it. -/
def Diagnostic.AdvisedOnRange (d : Diagnostic) : Prop :=
  ∃ label low high, d.data.get? "label" = some (.text label) ∧ d.data.get? "min" = some (.float low)
    ∧ d.data.get? "max" = some (.float high) ∧ RangeAdvice label low high d.suggestion

/-- What is advised on a range that is wrong. -/
theorem advisedOnRange_of_rangeIssue? {c : Control} (hc : c.rangeIssue? = some f.issue)
    (h : standardRules.annotate f.toDiagnostic = .ok d) : d.hasSuggestion ∧ d.AdvisedOnRange := by
  obtain ⟨position, issue⟩ := f
  have hkind := (Control.spec_of_rangeIssue? hc).1
  obtain ⟨low, high, hproposal, hlabel, hlow, hhigh, hadvice⟩ : ∃ low high, issue.proposal = none
      ∧ Table.find? "label" issue.data = some (.text c.label) ∧ Table.find? "min" issue.data = some (.float low)
      ∧ Table.find? "max" issue.data = some (.float high)
      ∧ RangeAdvice c.label low high
          ((advisors .range).findSome? (·.advice? (Finding.toDiagnostic ⟨position, issue⟩))) := by
    obtain ⟨low, high, -, -, ⟨hless, rfl⟩ | ⟨hless, initial, -, rfl⟩⟩ := Control.cases_of_rangeIssue? hc
    · refine ⟨low, high, rfl, rfl, rfl, rfl, ?_⟩
      rw [advisors_range, findSome?_cons, advice_swap rfl]
      · exact ⟨rfl, iff_of_true rfl (.inl hless), by simp [hless]⟩
      · refine ⟨("'" ++ c.label ++ "' has min " ++ amount low ++ " ").toList, (" " ++ amount high).toList, ?_⟩
        delta Issue.message
        simp
    · exact ⟨low, high, rfl, rfl, rfl, rfl, rangeAdvice_default c.label initial position hless⟩
  rw [annotate_of_no_proposal _ (Issue.isPresentable_of_kind (by simp [hkind])) (by simp [hkind]) hproposal] at h
  obtain rfl := Except.ok.inj h
  rw [hkind]
  obtain ⟨text, htext⟩ := Option.isSome_iff_exists.mp hadvice.isSome
  refine ⟨?_, c.label, low, high, hlabel, hlow, hhigh, hadvice⟩
  simp [Diagnostic.hasSuggestion, htext, advice_ne_empty (by decide) htext]

/-! ## Reports -/

/-- What can be said about the suggestion of a diagnostic. The path of a control must not be empty or start with a
quote, and the name of a library must be one that can be quoted or is like that of a known library. -/
structure Diagnostic.Advised (available : Libraries) (d : Diagnostic) : Prop where
  suggested : d.kind ∈ [.undefined, .duplicate, .circular, .dimension, .causality, .range, .path, .library] →
    (∀ path, d.kind = .path → d.data.get? "path" = some (.text path) → StartsUnquoted path) →
    (∀ path, d.kind = .library → d.data.get? "library" = some (.text path) →
      Quotable path ∨ (Lexical.similarLibrary? available path).isSome) → d.hasSuggestion
  range : d.kind = .range → d.AdvisedOnRange

theorem Finding.advised {available : Libraries} (hissue : f.issue.isPresentable)
    (hnames : ∀ name ∈ f.issue.named?, Quotable name) (hsubtype : f.issue.kind = .dimension → f.issue.subtype.isSome)
    (hrange : f.issue.kind = .range → ∃ c : Control, c.rangeIssue? = some f.issue)
    (hlibrary : f.issue.kind = .library →
      ∃ path, f.issue = .unknownLibrary path (Lexical.similarLibrary? available path))
    (h : standardRules.annotate f.toDiagnostic = .ok d) : d.Advised available := by
  obtain ⟨⟨suggestion, hd⟩, -⟩ := Rules.annotate_eq h
  have hranges (hkind : f.issue.kind = .range) := advisedOnRange_of_rangeIssue? (hrange hkind).choose_spec h
  have hsame : d.kind = f.issue.kind := hd ▸ rfl
  refine ⟨?_, fun hkind => (hranges (hsame ▸ hkind)).2⟩
  intro hkind hpath hname
  rw [hd] at hkind hpath hname
  by_cases hne : f.issue.kind = .range
  · exact (hranges hne).1
  refine (Finding.advisable_of_tells ⟨hnames, hsubtype, ?_, ?_⟩ hkind hne).hasSuggestion hissue ?_ h
  · intro path first heq
    exact hpath path (congrArg Issue.kind heq) (congrArg (fun issue : Issue => Table.find? "path" issue.data) heq)
  · intro path heq
    obtain ⟨path', heq'⟩ := hlibrary (congrArg Issue.kind heq)
    obtain ⟨rfl, hnone⟩ := Issue.unknownLibrary.inj (heq.symm.trans heq')
    have hquotable := hname path (congrArg Issue.kind heq)
      (congrArg (fun issue : Issue => Table.find? "library" issue.data) heq)
    simpa [← hnone] using hquotable
  · intro hgrammar
    simp [Finding.toDiagnostic, hgrammar] at hkind

/-- Suggestions are decided by what was found, as far as the texts of the program in a message do not look like words of
the advice table. With the tables of the language, every name that stands for nothing, name bound twice, circular
definition, dimension that does not fit, loop without a delay and wrong range in a report comes with a suggestion. So
does a path in use that is not empty and does not start with a quote, and an unknown library whose name is not empty and
has no quote or is like that of a known one. On a range, the ends are to be exchanged if the least value is above the
greatest one, and else exactly if the label has the words of such advice. If it has not, and nothing that looks like a
range, a default between the two ends is proposed. -/
theorem Registry.analyze_advised (settings : Settings) (detail : Detail) (source : String) (report : Report)
    (h : Registry.standard.analyze settings detail source = .ok report) :
    ∀ d ∈ report.diagnostics, d.Advised settings.libraries := by
  intro d hd
  unfold analyze at h
  split at h
  · rename_i seconds _
    simp only [Report.outOfTime, bind, Except.bind] at h
    cases hannotate : Registry.standard.rules.annotate (Finding.toDiagnostic ⟨.start, .outOfTime seconds⟩) with
    | error fault => simp [hannotate] at h
    | ok d' =>
      obtain rfl := Except.ok.inj (hannotate ▸ h)
      rw [mem_singleton.mp hd]
      exact Finding.advised rfl (by simp [Issue.named?]) (by simp [Issue.kind]) (by simp [Issue.kind])
        (by simp [Issue.kind]) hannotate
  · obtain ⟨findings, outline, hexamine, -, -, hfindings⟩ := spec_of_report h
    obtain ⟨f, hf, hannotate⟩ := hfindings d hd
    obtain ⟨p, grammatical, ranges, hparse, -, hranges, hwritable, rfl⟩ := findings_of_examine hexamine
    obtain ⟨hissue, -, hsubtype, hrange, hlibrary⟩ := presentable_of_writable hparse hranges hwritable hf
    refine Finding.advised hissue ?_ hsubtype hrange hlibrary hannotate
    rcases standsAmong_of_mem hparse hranges hf with hf | hf | hsites
    · simp [f.issue.named_of_kind (by simp [kind_of_mem_scan hf])]
    · simp [f.issue.named_of_kind (by simp [Program.grammatical_of_parse hparse f hf])]
    · exact hsites.quotable (Program.located_of_parse hparse).1

/-- A slider with a quote in its label, whose default is above its range. -/
def misplaced : String := "process = hslider(\"it's [unit:Hz]\", 5, 0, 1, 1);"

/-- For `misplaced` a default within the range is proposed. -/
theorem Registry.analyze_advised_misplaced :
    ∃ report d, Registry.standard.analyze .standard .basic misplaced = .ok report ∧ report.diagnostics = [d]
      ∧ d.message = "Default value 5 of 'it's' is outside its range [0, 1]"
      ∧ d.suggestion = some "Choose a default between 0 and 1" ∧ d.Advised Settings.standard.libraries := by
  have hread : (Registry.standard.analyze .standard .basic misplaced).toOption.map
      (·.diagnostics.map fun d => (d.message, d.suggestion))
      = some [("Default value 5 of 'it's' is outside its range [0, 1]",
        some "Choose a default between 0 and 1")] := by
    decide +kernel
  obtain ⟨report, hreport, hseen⟩ := exists_ok_of_view hread
  obtain ⟨d, hd, htexts⟩ := map_eq_singleton_iff.mp hseen
  obtain ⟨hmessage, hsuggestion⟩ := Prod.mk.inj htexts
  exact ⟨report, d, hreport, hd, hmessage, hsuggestion, Registry.analyze_advised _ _ _ report hreport d (by simp [hd])⟩

/-- A slider whose label has the words of a rule, with a default above its range. -/
def deceptive : String := "process = hslider(\"greater than max\", 5, 0, 1, 1);"

/-- The label of `deceptive` is taken for words of the message, and a library without a name gets no advice. -/
theorem Registry.misadvised_deceptive :
    (Registry.standard.analyze .standard .basic deceptive).toOption.map
        (·.diagnostics.map fun d => (d.kind, d.message, d.suggestion))
      = some [(.range, "Default value 5 of 'greater than max' is outside its range [0, 1]", some swapAdvice)]
    ∧ (Registry.standard.analyze .standard .basic "import(\"\");").toOption.map
        (·.diagnostics.map fun d => (d.kind, d.suggestion)) = some [(.library, none)] :=
  ⟨by decide +kernel, by decide +kernel⟩

end Patchbay
