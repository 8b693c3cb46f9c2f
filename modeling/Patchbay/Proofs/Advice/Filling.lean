import Mathlib.Data.List.TakeWhile
import Patchbay.Report

/-!
# The advice table can be filled in

A template of text and plain fields can be filled in as soon as the numbers that the fields show can be written. All
templates of the advice table are of this form, but for one: advice on a block that is not closed has a brace that
stands alone. So asking the table for advice on a finding fails at most for an unclosed block, and for counts of too
many digits.
-/

open List

namespace Patchbay

/-! ## Templates -/

/-- A part that is plain text, or that shows a value with one of these names as it is. -/
def TemplatePart.isPlain (names : List String) : TemplatePart → Bool
  | .text _ => true
  | .field f =>
    names.contains (String.ofList f.path) && f.path.all (!Template.endsName ·) && !f.path.all Text.isDigit
      && f.conversion.isNone && f.format.isEmpty
  | .malformed => false

/-- A part that is text and not empty. -/
def TemplatePart.isSpoken : TemplatePart → Bool
  | .text plain => plain != ""
  | _ => false

/-- The parts are plain, and the first one is text. -/
def Template.isPlain (names : List String) (parts : List TemplatePart) : Bool :=
  parts.head?.any TemplatePart.isSpoken && parts.all (·.isPlain names)

/-- A plain part with the value of its field. A field without a value is shown as it is written. -/
def TemplatePart.filled (values : List (String × Datum)) : TemplatePart → String
  | .text plain => plain
  | .field f =>
    ((Datum.field? (String.ofList f.path) values).getD (.text ("\x7b" ++ String.ofList f.path ++ "\x7d"))).shown
  | .malformed => ""

/-- The values with one of these names can be written. -/
def Shows (names : List String) (values : List (String × Datum)) : Prop :=
  ∀ e ∈ values, e.1 ∈ names → e.2.isWritable = true

@[simp] theorem shows_nil (names : List String) : Shows names [] := by
  simp [Shows]

@[simp] theorem shows_cons (names : List String) (e : String × Datum) (values : List (String × Datum)) :
    Shows names (e :: values) ↔ (e.1 ∈ names → e.2.isWritable) ∧ Shows names values := by
  simp [Shows]

namespace Template

variable {names : List String} {values : List (String × Datum)}

/-- A name that has no value is shown as it is written, which is a text. -/
theorem isWritable_getD_field? (h : Shows names values) {name : String} (hname : name ∈ names) (shown : String) :
    ((Datum.field? name values).getD (.text shown)).isWritable := by
  unfold Datum.field?
  cases hfind : values.find? fun e => e.1 == name with
  | none => rfl
  | some e =>
    have hkey : e.1 = name := by simpa using find?_some hfind
    exact h e (mem_of_find?_eq_some hfind) (hkey ▸ hname)

theorem valueAt_of_plain {path : List Char} (hends : path.all (!endsName ·))
    (hdigits : path.all Text.isDigit = false) :
    valueAt values path = .ok ((Datum.field? (String.ofList path) values).getD
      (.text ("\x7b" ++ String.ofList path ++ "\x7d"))) := by
  have htake : path.takeWhile (!endsName ·) = path := by
    refine takeWhile_eq_self_iff.mpr ?_
    intro c hc
    exact all_eq_true.mp hends c hc
  unfold valueAt
  simp [htake, hdigits, follow]

theorem partText_of_plain (h : Shows names values) (expand : List Char → Except Fault String) {part : TemplatePart}
    (hpart : part.isPlain names) : partText values expand part = .ok (part.filled values) := by
  cases part with
  | text plain => rfl
  | malformed => exact absurd hpart Bool.false_ne_true
  | field field =>
    obtain ⟨path, conversion, format⟩ := field
    simp only [TemplatePart.isPlain, Bool.and_eq_true, Bool.not_eq_true', contains_iff_mem,
      Option.isNone_iff_eq_none, List.isEmpty_iff] at hpart
    obtain ⟨⟨⟨⟨hname, hends⟩, hdigits⟩, rfl⟩, rfl⟩ := hpart
    have hwritable := isWritable_getD_field? h hname ("\x7b" ++ String.ofList path ++ "\x7d")
    simp only [partText, valueAt_of_plain hends hdigits, converted, bind, Except.bind]
    rw [if_neg (by simp)]
    unfold Datum.formatted Datum.written
    rw [if_pos isEmpty_nil, if_pos hwritable]
    rfl

theorem mapM_partText_of_plain (h : Shows names values) (expand : List Char → Except Fault String)
    {parts : List TemplatePart} (hparts : parts.all (·.isPlain names)) :
    parts.mapM (partText values expand) = .ok (parts.map (·.filled values)) := by
  induction parts with
  | nil => rfl
  | cons part rest ih =>
    rw [all_cons, Bool.and_eq_true] at hparts
    rw [mapM_cons, partText_of_plain h expand hparts.1, ih hparts.2]
    rfl

/-- A template of text and plain fields is filled in part by part. -/
theorem fill_of_plain {template : String} (htemplate : isPlain names (parts template.toList))
    (h : Shows names values) :
    fill template values = .ok (String.join ((parts template.toList).map (·.filled values))) := by
  unfold fill
  rw [fillTo, mapM_partText_of_plain h (fillTo values 1) (Bool.and_eq_true_iff.mp htemplate).2]
  rfl

end Template

/-! ## Patterns -/

variable {rule : Rule} {f : Finding} {cs : List Char} {d : Diagnostic} {names : List String}

theorem Text.dropStart?_eq_some_iff {start rest : List Char} :
    dropStart? (· == ·) start cs = some rest ↔ start ++ rest = cs := by
  induction start generalizing cs with
  | nil => cases cs <;> simp [dropStart?, eq_comm]
  | cons s start ih =>
    cases cs with
    | nil => simp [dropStart?]
    | cons c cs => simp [dropStart?, ih]

namespace Pattern

theorem matchPieces_exact {text : String} {pieces : List PatternPiece} {named : List (String × String)} :
    matchPieces (.exact text :: pieces) cs = some named
      ↔ ∃ rest, text.toList ++ rest = cs ∧ matchPieces pieces rest = some named := by
  rw [matchPieces]
  cases hdrop : Text.dropStart? (· == ·) text.toList cs with
  | none | some rest =>
    simp only [← Text.dropStart?_eq_some_iff, hdrop]
    simp

theorem matchPieces_exact_append (text : String) (pieces : List PatternPiece) (rest : List Char) :
    matchPieces (.exact text :: pieces) (text.toList ++ rest) = matchPieces pieces rest := by
  rw [matchPieces, Text.dropStart?_eq_some_iff.mpr rfl]

/-- A pattern is found in a text if it matches somewhere. -/
theorem searchFrom_isSome_iff (p : Pattern) (cs : List Char) :
    (p.searchFrom cs).isSome ↔ ∃ rest, rest <:+ cs ∧ (p.matchHere rest).isSome := by
  induction cs with
  | nil => simp [searchFrom]
  | cons c cs ih =>
    simp only [suffix_cons_iff, or_and_right, exists_or, exists_eq_left, ← ih]
    rw [searchFrom]
    cases p.matchHere (c :: cs) <;> simp

/-- A text alone matches where a text starts with it. -/
theorem matchPieces_exact_isSome_iff (text : String) (cs : List Char) :
    (matchPieces [.exact text] cs).isSome ↔ text.toList <+: cs := by
  simp only [Option.isSome_iff_exists, matchPieces_exact, prefix_iff_exists_append_eq]
  simp [matchPieces]

/-- A text is found where it stands. -/
theorem find?_ofExact_isSome_iff (text message : String) :
    ((ofExact text).find? message).isSome ↔ text.toList <:+: message.toList := by
  have hhere (cs : List Char) : ((ofExact text).matchHere cs).isSome ↔ text.toList <+: cs := by
    rw [matchHere, ofExact, findSome?_singleton, matchPieces_exact_isSome_iff]
  refine (searchFrom_isSome_iff _ _).trans ?_
  simp only [hhere, infix_iff_prefix_suffix, and_comm]

end Pattern

/-! ## Rules -/

/-- The names that the templates of the advice table show. -/
def adviceNames : List String := ["quoted", "bracket", "name", "outputs", "inputs", "expected", "low", "high"]

/-- A template that is given by its characters is plain if these are read as plain parts. -/
theorem Template.plain_ofList (h : isPlain names (parts cs)) :
    isPlain names (parts (String.ofList cs).toList) := by
  rw [String.toList_ofList]
  exact h

/-- All templates of the advice table are plain, but for that of unclosed blocks. -/
theorem plain_standardRuleList : ∀ rule ∈ standardRuleList,
    (rule.kind = .grammar ∧ rule.pattern = .ofExact "Unclosed '\x7b'")
      ∨ Template.isPlain adviceNames (Template.parts rule.template.toList) := by
  -- Rule by rule: the characters of a literal are at hand, and need not be decoded.
  repeat' refine forall_mem_cons.mpr ⟨?_, ?_⟩
  all_goals first
    | exact .inr (Template.plain_ofList (by decide +kernel))
    | exact .inl ⟨rfl, rfl⟩
    | exact fun _ h => absurd h not_mem_nil

/-- Whole numbers can be compared. -/
theorem dividesProperly_int (part whole : Int) : ∃ b, dividesProperly (.int part) (.int whole) = .ok b := by
  simp only [dividesProperly, Datum.units?]
  split
  · exact ⟨_, rfl⟩
  · exact ⟨_, rfl⟩

/-- Whether a finding meets a condition can be told. Counts are compared only where a dimension does not fit in
sequence, and then they are whole numbers. -/
theorem Condition.holds_isOk (c : Condition) (f : Finding) : ∃ b, c.holds f.toDiagnostic = .ok b := by
  have hsequential : f.issue.subtype = some .sequential →
      ∃ outputs inputs : Int, (f.toDiagnostic.data.get? "outputs").getD (.int 0) = .int outputs
        ∧ (f.toDiagnostic.data.get? "inputs").getD (.int 0) = .int inputs := by
    obtain ⟨position, issue⟩ := f
    intro hsubtype
    cases issue with
    | badComposition op left right => exact ⟨left.outputs, right.inputs, rfl, rfl⟩
    | badChain body => exact ⟨body.outputs, body.inputs, rfl, rfl⟩
    | _ => simp [Issue.subtype] at hsubtype
  cases c with
  | always => exact ⟨true, rfl⟩
  | mismatch subtype => exact ⟨_, rfl⟩
  | mergeFits | splitFits =>
    simp only [Condition.holds]
    split
    · rename_i hsubtype
      obtain ⟨outputs, inputs, houtputs, hinputs⟩ := hsequential hsubtype
      rw [houtputs, hinputs]
      exact dividesProperly_int _ _
    · exact ⟨false, rfl⟩

/-- What a rule says with these named parts of the message and these data. -/
def Rule.text (rule : Rule) (named : List (String × String)) (data : List (String × Datum)) : String :=
  String.join ((Template.parts rule.template.toList).map
    (·.filled (named.map (fun part => (part.1, Datum.text part.2)) ++ data)))

/-- A rule whose template starts with text says something. -/
theorem Rule.text_ne_empty (h : Template.isPlain names (Template.parts rule.template.toList))
    (named : List (String × String)) (data : List (String × Datum)) : rule.text named data ≠ "" := by
  have hspoken := (Bool.and_eq_true_iff.mp h).1
  unfold Rule.text
  rcases hparts : Template.parts rule.template.toList with _ | ⟨part, rest⟩
  · simp [hparts] at hspoken
  · rw [hparts] at hspoken
    cases part with
    | text plain =>
      have hplain : plain ≠ "" := by simpa [TemplatePart.isSpoken] using hspoken
      simp [TemplatePart.filled, hplain]
    | field | malformed => simp [TemplatePart.isSpoken] at hspoken

/-- What a rule says about a diagnostic, if it applies. -/
def Rule.advice? (rule : Rule) (d : Diagnostic) : Option String :=
  if d.kind = rule.kind ∧ rule.condition.holds d = .ok true then
    (rule.pattern.find? d.message).map fun named => rule.text named d.data.entries
  else none

theorem Rule.advice?_of_kind (h : d.kind ≠ rule.kind) : rule.advice? d = none :=
  if_neg fun happlies => h happlies.1

/-- A rule with a plain template can be asked for advice. Named parts of a match are texts. -/
theorem Rule.advise_of_plain (hrule : Template.isPlain names (Template.parts rule.template.toList))
    (hdata : Shows names f.issue.data) : rule.advise f.toDiagnostic = .ok (rule.advice? f.toDiagnostic) := by
  rcases rule.condition.holds_isOk f with ⟨b, hb⟩
  unfold Rule.advise Rule.advice?
  rw [hb]
  by_cases hkind : f.toDiagnostic.kind = rule.kind
  · rw [if_neg (not_not_intro hkind)]
    cases rule.pattern.find? f.toDiagnostic.message with
    | none => simp
    | some named =>
      have hshows : Shows names
          (named.map (fun part => (part.1, Datum.text part.2)) ++ f.toDiagnostic.data.entries) := by
        intro e he hname
        rcases mem_append.mp he with he | he
        · rcases mem_map.mp he with ⟨part, -, rfl⟩
          rfl
        · exact hdata e he hname
      cases b with
      | false => simp
      | true =>
        dsimp only
        rw [Template.fill_of_plain hrule hshows, if_pos ⟨hkind, rfl⟩]
        rfl
  · rw [if_pos hkind, if_neg fun happlies => hkind happlies.1]

/-- If all rules can be asked, the first that says something decides. -/
theorem adviseFrom_eq {rules : List Rule} (h : ∀ rule ∈ rules, rule.advise d = .ok (rule.advice? d)) :
    adviseFrom d rules = .ok (rules.findSome? (·.advice? d)) := by
  induction rules with
  | nil => rfl
  | cons rule rest ih =>
    rcases forall_mem_cons.mp h with ⟨hrule, hrest⟩
    rw [adviseFrom, hrule, findSome?_cons]
    cases rule.advice? d with
    | none => exact ih hrest
    | some text => rfl

/-! ## Findings -/

/-- Whether the number of arguments that an issue asks for can be written. -/
def Issue.asksWritably : Issue → Bool
  | .argumentCount _ expected _ => Number.isWritable expected.natAbs
  | _ => true

/-- Whether all counts can be written that an issue has in its message, and that advice on it shows. -/
def Issue.isPresentable (issue : Issue) : Bool := issue.isWritable && issue.asksWritably

theorem Issue.counts_of_isWritable {op : Operator} {left right : Dimension}
    (h : (Issue.badComposition op left right).isWritable) :
    Number.isWritable left.outputs ∧ Number.isWritable right.inputs := by
  unfold isWritable at h
  split at h
  all_goals simp_all [Dimension.isWritable]

theorem Issue.shows_data {issue : Issue} (h : issue.isPresentable) : Shows adviceNames issue.data := by
  rw [isPresentable, Bool.and_eq_true] at h
  obtain ⟨hwritable, hasks⟩ := h
  cases issue with
  | badComposition op left right =>
    simp [Issue.data, adviceNames, Datum.isWritable, counts_of_isWritable hwritable]
  | tooManySignals name inputs supplied =>
    have hcounts : (Number.isWritable inputs && Number.isWritable supplied) := hwritable
    rw [Bool.and_eq_true] at hcounts
    simp [Issue.data, adviceNames, Datum.isWritable, hcounts]
  | badChain body =>
    have hcounts : (Number.isWritable body.inputs && Number.isWritable body.outputs) := hwritable
    rw [Bool.and_eq_true] at hcounts
    simp [Issue.data, adviceNames, Datum.isWritable, hcounts]
  | argumentCount name expected got =>
    have hexpected : Number.isWritable expected.natAbs := hasks
    simp [Issue.data, adviceNames, Datum.isWritable, hexpected]
  | _ =>
    -- All else is text, or under a name that no template shows.
    simp [Issue.data, found, adviceNames, Datum.isWritable]

/-- The advice table can be asked about a finding, unless it is about an unclosed block or has too many digits. -/
theorem advise_standardRules (hissue : f.issue.isPresentable)
    (hbrace : f.issue.kind = .grammar → ¬ "Unclosed '\x7b'".toList <:+: f.issue.message.toList) :
    standardRules.advise f.toDiagnostic = .ok (standardRuleList.findSome? (·.advice? f.toDiagnostic)) := by
  have hvalues : standardRules.values = standardRuleList := by
    simp [standardRules, Table.values, Function.comp_def]
  unfold Rules.advise
  rw [hvalues]
  apply adviseFrom_eq
  intro rule hrule
  rcases plain_standardRuleList rule hrule with ⟨hkind, hpattern⟩ | hplain
  · by_cases hsame : f.toDiagnostic.kind = rule.kind
    · have hfind : rule.pattern.find? f.toDiagnostic.message = none := by
        rw [hpattern, ← Option.not_isSome_iff_eq_none, Pattern.find?_ofExact_isSome_iff]
        exact hbrace (hsame.trans hkind)
      simp [Rule.advise, Rule.advice?, hfind]
    · rw [Rule.advice?_of_kind hsame, Rule.advise, if_pos hsame]
  · exact Rule.advise_of_plain hplain (Issue.shows_data hissue)

theorem annotate_isOk (hissue : f.issue.isPresentable)
    (hbrace : f.issue.kind = .grammar → ¬ "Unclosed '\x7b'".toList <:+: f.issue.message.toList) :
    ∃ d, standardRules.annotate f.toDiagnostic = .ok d := by
  unfold Rules.annotate
  rw [advise_standardRules hissue hbrace]
  split
  · exact ⟨_, rfl⟩
  · cases standardRuleList.findSome? (·.advice? f.toDiagnostic) with
    | none => exact ⟨_, rfl⟩
    | some text => exact ⟨_, rfl⟩

theorem annotateAll_isOk {rules : Rules} {ds : List Diagnostic} (h : ∀ d ∈ ds, ∃ d', rules.annotate d = .ok d') :
    ∃ ds', rules.annotateAll ds = .ok ds' := by
  induction ds with
  | nil => exact ⟨[], rfl⟩
  | cons d rest ih =>
    obtain ⟨d', hd'⟩ := h d mem_cons_self
    obtain ⟨rest', hrest'⟩ := ih fun d hd => h d (mem_cons_of_mem _ hd)
    refine ⟨d' :: rest', ?_⟩
    rw [Rules.annotateAll, hd', hrest']
    rfl

end Patchbay
