import Patchbay.Proofs.Analysis.Sites
import Patchbay.Proofs.Cache.Documents
import Patchbay.Proofs.Cache.Memory

/-!
# What was put comes back

A cache with a store behind it is put reports into, asked for them, emptied and opened anew in any order. It gives for a
text and a level of detail the report that was put last, or what a store leaves of it, and nothing where nothing was put
since it was emptied. Which of the two it gives depends on what memory has forgotten.

What a store leaves of a report of an analysis is the whole report, provided that the amounts of its controls are
finite. The floats among the data of its diagnostics are such amounts, or a time that has passed. A control whose range
is not bounded loses its bound, and this is the only way to get something else than what was put.
-/

open List

namespace Patchbay

open Datum

/-! ## Finite reports -/

/-- All amounts of a control. -/
def Control.amounts (c : Control) : List Binary64 := c.numbers ++ c.step.toList

/-- Whether all amounts of the controls of a report are finite. -/
def Report.isFinite (r : Report) : Bool :=
  r.outline.all fun o => o.controls.all fun c => c.amounts.all Binary64.isFinite

/-- The report of an analysis with settings that bound the time by something positive or not at all. -/
def Report.Produced (r : Report) : Prop :=
  ∃ (g : Registry) (settings : Settings) (detail : Detail) (source : String),
    (∀ seconds ∈ settings.timeout, (Binary64.ofNat 0).lt seconds = true) ∧ g.analyze settings detail source = .ok r

variable {issue : Issue} {c : Control} {f : Finding} {value : Binary64} {settings : Settings} {calls : List StoreCall}

theorem Control.mem_amounts :
    value ∈ c.amounts ↔ c.low = some value ∨ c.high = some value ∨ c.initial = some value ∨ c.step = some value := by
  simp [amounts, numbers]

theorem keptAmount_eq {amount : Option Binary64} (h : ∀ value ∈ amount, value.isFinite) :
    keptAmount amount = amount := by
  cases amount with
  | none => rfl
  | some value => exact if_pos (h value rfl)

theorem Control.persisted_eq (h : c.amounts.all Binary64.isFinite) : c.persisted = c := by
  have hfinite := all_eq_true.mp h
  unfold persisted
  rw [keptAmount_eq fun value hvalue => hfinite value (mem_amounts.mpr (.inr (.inr (.inl hvalue)))),
    keptAmount_eq fun value hvalue => hfinite value (mem_amounts.mpr (.inl hvalue)),
    keptAmount_eq fun value hvalue => hfinite value (mem_amounts.mpr (.inr (.inl hvalue))),
    keptAmount_eq fun value hvalue => hfinite value (mem_amounts.mpr (.inr (.inr (.inr hvalue))))]

theorem Outline.persisted_eq {o : Outline}
    (h : (o.controls.all fun c => c.amounts.all Binary64.isFinite)) : o.persisted = o := by
  have hcontrols : o.controls.map Control.persisted = o.controls := by
    conv => rhs; rw [← map_id o.controls]
    exact map_congr_left fun c hc => Control.persisted_eq (all_eq_true.mp h c hc)
  unfold persisted
  rw [hcontrols]

/-! ## Data of diagnostics -/

/-- The floats among the data of an issue. -/
def Issue.floats : Issue → List Binary64
  | .minimumAboveMaximum _ low high initial => low :: high :: initial.toList
  | .defaultOutsideRange _ low high initial => [low, high, initial]
  | .outOfTime seconds => [seconds]
  | _ => []

/-- The data of an issue can be kept if the floats among them are finite. -/
theorem Issue.fieldsStored_data (h : ∀ value ∈ issue.floats, value.isFinite) :
    fieldsStored issue.data = issue.data := by
  cases issue with
  | circularDefinition cycle defined =>
    have htexts : itemsStored (cycle.map .text) = cycle.map .text := by
      rw [itemsStored_eq_map, map_map]
      rfl
    simp only [data, fieldsStored, stored, htexts]
  | minimumAboveMaximum label low high initial =>
    have hlow : low.isFinite := h low (by simp [floats])
    have hhigh : high.isFinite := h high (by simp [floats])
    cases initial with
    | none => simp [data, fieldsStored, stored, ofOption, hlow, hhigh]
    | some initial =>
      have hinitial : initial.isFinite := h initial (by simp [floats])
      simp [data, fieldsStored, stored, ofOption, hlow, hhigh, hinitial]
  | defaultOutsideRange label low high initial =>
    have hlow : low.isFinite := h low (by simp [floats])
    have hhigh : high.isFinite := h high (by simp [floats])
    have hinitial : initial.isFinite := h initial (by simp [floats])
    simp [data, fieldsStored, stored, hlow, hhigh, hinitial]
  | outOfTime seconds =>
    have hseconds : seconds.isFinite := h seconds (by simp [floats])
    simp [data, fieldsStored, stored, hseconds]
  | _ => rfl

theorem Diagnostic.persisted_eq {suggestion : Option String} (h : ∀ value ∈ f.issue.floats, value.isFinite) :
    persisted { f.toDiagnostic with suggestion := suggestion } = { f.toDiagnostic with suggestion := suggestion } := by
  have hdata : storedTable f.toDiagnostic.data = f.toDiagnostic.data := Table.ext (Issue.fieldsStored_data h)
  exact congrArg (fun data => { f.toDiagnostic with suggestion, data }) hdata

/-- Only ranges and time bring floats. -/
theorem Issue.floats_of_kind (hrange : issue.kind ≠ .range) (htime : issue.kind ≠ .timeout) : issue.floats = [] := by
  cases issue with
  | minimumAboveMaximum | defaultOutsideRange => exact absurd rfl hrange
  | outOfTime => exact absurd rfl htime
  | _ => rfl

theorem Control.floats_of_rangeIssue? (h : c.rangeIssue? = some issue) : issue.floats ⊆ c.amounts := by
  intro value hvalue
  rw [mem_amounts]
  obtain ⟨low, high, hlow, hhigh, ⟨-, rfl⟩ | ⟨-, initial, hinitial, rfl⟩⟩ := cases_of_rangeIssue? h
  · simp only [Issue.floats, mem_cons, Option.mem_toList] at hvalue
    rcases hvalue with rfl | rfl | hinitial
    · exact .inl hlow
    · exact .inr (.inl hhigh)
    · exact .inr (.inr (.inl hinitial))
  · simp only [Issue.floats, mem_cons, not_mem_nil, or_false] at hvalue
    rcases hvalue with rfl | rfl | rfl
    · exact .inl hlow
    · exact .inr (.inl hhigh)
    · exact .inr (.inr (.inl hinitial))

theorem Sizing.Reported.floats {c : Context} (h : Reported c issue) : issue.floats = [] := by
  cases issue with
  | minimumAboveMaximum | defaultOutsideRange | outOfTime => simp [Reported] at h
  | _ => rfl

/-- The floats among the data of what an analysis finds are amounts of its controls. -/
theorem Registry.floats_of_examine {g : Registry} {detail : Detail} {source : String} {findings : List Finding}
    {outline : Outline} (h : g.examine settings detail source = .ok (findings, outline)) (hf : f ∈ findings)
    (hvalue : value ∈ f.issue.floats) : ∃ c ∈ outline.controls, value ∈ c.amounts := by
  obtain ⟨p, grammatical, ranges, hparse, hcontrols, hranges, -, rfl⟩ := findings_of_examine h
  have hnone (hfloats : f.issue.floats = []) : ∃ c ∈ outline.controls, value ∈ c.amounts := by
    rw [hfloats] at hvalue
    cases hvalue
  simp only [mem_append] at hf
  rcases hf with ((((hf | hf) | hf) | hf) | hf) | hf
  · have hkind := kind_of_mem_scan hf
    exact hnone (Issue.floats_of_kind (by simp [hkind]) (by simp [hkind]))
  · have hkind := Program.grammatical_of_parse hparse f hf
    exact hnone (Issue.floats_of_kind (by simp [hkind]) (by simp [hkind]))
  · rcases Lexical.kind_of_mem_resolve hf with ⟨hkind, -⟩ | hkind | hkind
    all_goals exact hnone (Issue.floats_of_kind (by simp [hkind]) (by simp [hkind]))
  · have hids := Program.nodup_ids_of_parse hparse
    obtain ⟨hhistory, -⟩ := Sizing.sizeProgram_ends g.primitives settings.libraries hids _ rfl
    exact hnone (hhistory.reported f hf).floats
  · obtain ⟨c, hc, -, hissue, -⟩ := exists_control_of_mem_rangeFindings hranges hf
    exact ⟨c, hcontrols ▸ hc, Control.floats_of_rangeIssue? hissue hvalue⟩
  · have hkind := kind_of_mem_clashesFrom hf
    exact hnone (Issue.floats_of_kind (by simp [hkind]) (by simp [hkind]))

/-- What lies between finite numbers is finite. -/
theorem Binary64.isFinite_of_lt_of_lt {low high : Binary64} (hlow : low.isFinite) (hhigh : high.isFinite)
    (hbelow : low.lt value) (habove : value.lt high) : value.isFinite := by
  cases low with
  | infinite | nan => simp [isFinite] at hlow
  | finite =>
    cases high with
    | infinite | nan => simp [isFinite] at hhigh
    | finite =>
      cases value with
      | finite => rfl
      | nan => simp [lt] at hbelow
      | infinite negative =>
        have hnegative : negative := habove
        have hpositive : (!negative) := hbelow
        rw [hnegative] at hpositive
        simp at hpositive

/-- A positive time that has passed is finite. -/
theorem Settings.isFinite_of_expired? {seconds : Binary64} (h : settings.expired? = some seconds)
    (hpositive : ∀ seconds ∈ settings.timeout, (Binary64.ofNat 0).lt seconds) : seconds.isFinite := by
  obtain ⟨htimeout, hpassed⟩ := Option.filter_eq_some_iff.mp h
  exact Binary64.isFinite_of_lt_of_lt (by decide +kernel) (by decide +kernel) (hpositive seconds htimeout) hpassed

/-- A store leaves a report of an analysis as it is if its amounts are finite. -/
theorem Report.Produced.persisted_eq {r : Report} (h : r.Produced) (hfinite : r.isFinite) : r.persisted = r := by
  obtain ⟨g, settings, detail, source, hpositive, hanalyze⟩ := h
  -- The data of all diagnostics can be kept, and an outline is kept whole.
  have hsame (hdiagnostics : ∀ d ∈ r.diagnostics, d.persisted = d) (hfixes : r.quickFixes ⊆ r.diagnostics) :
      r.persisted = r := by
    have hmap {ds : List Diagnostic} (hds : ds ⊆ r.diagnostics) : ds.map Diagnostic.persisted = ds := by
      conv => rhs; rw [← map_id ds]
      exact map_congr_left fun d hd => hdiagnostics d (hds hd)
    have houtline : r.outline.map Outline.persisted = r.outline := by
      unfold isFinite at hfinite
      cases hr : r.outline with
      | none => rfl
      | some o =>
        rw [hr] at hfinite
        rw [Option.map_some, Outline.persisted_eq hfinite]
    unfold persisted
    rw [hmap (List.Subset.refl _), hmap hfixes, houtline]
  unfold Registry.analyze at hanalyze
  cases hexpired : settings.expired? with
  | some seconds =>
    rw [hexpired] at hanalyze
    simp only [outOfTime, bind, Except.bind, pure, Except.pure] at hanalyze
    cases hannotate : g.rules.annotate (Finding.toDiagnostic ⟨.start, .outOfTime seconds⟩) with
    | error fault => simp [hannotate] at hanalyze
    | ok d =>
      obtain ⟨⟨suggestion, rfl⟩, -⟩ := Rules.annotate_eq hannotate
      obtain rfl := Except.ok.inj (hannotate ▸ hanalyze)
      refine hsame (forall_mem_singleton.mpr (Diagnostic.persisted_eq ?_)) (takeLimit_subset _ _)
      exact forall_mem_singleton.mpr (Settings.isFinite_of_expired? hexpired hpositive)
  | none =>
    rw [hexpired] at hanalyze
    obtain ⟨findings, outline, hexamine, houtline, hfixes, hfindings⟩ := Registry.spec_of_report hanalyze
    refine hsame ?_ hfixes
    intro d hd
    obtain ⟨f, hf, hannotate⟩ := hfindings d hd
    obtain ⟨⟨suggestion, rfl⟩, -⟩ := Rules.annotate_eq hannotate
    refine Diagnostic.persisted_eq fun value hvalue => ?_
    obtain ⟨c, hc, hamount⟩ := Registry.floats_of_examine hexamine hf hvalue
    unfold isFinite at hfinite
    rw [houtline] at hfinite
    exact all_eq_true.mp (all_eq_true.mp hfinite c hc) value hamount

/-! ## What a call keeps -/

/-- What a caller does with a cache that has a store: puts a report, asks for one, empties the cache, or opens a new one
on the same store. -/
inductive StoreCall where
  | put (source : String) (detail : Detail) (report : Report)
  | get (source : String) (detail : Detail)
  | clear
  | reopen (capacity : Nat)

namespace StoreCall

/-- The text that a call is about. -/
def source? : StoreCall → Option String
  | .put source _ _ => some source
  | .get source _ => some source
  | .clear => none
  | .reopen _ => none

/-- The report that was put last for a text and a level of detail, after one more call. -/
def lastAfter (source : String) (detail : Detail) (last : Option Report) : StoreCall → Option Report
  | .put other level report => if other = source ∧ level = detail then some report else last
  | .get _ _ => last
  | .clear => none
  | .reopen _ => last

/-- The report that was put last for a text and a level of detail since the cache was emptied. -/
def last? (calls : List StoreCall) (source : String) (detail : Detail) : Option Report :=
  calls.foldl (lastAfter source detail) none

end StoreCall

namespace Cache

/-- A cache after a call. -/
def after (c : Cache) : StoreCall → Cache
  | .put source detail report => c.put (.of source detail) report
  | .get source detail => (c.lookup (.of source detail)).2
  | .clear => c.clear
  | .reopen capacity => .ofStore capacity c.store

/-- The store has what is left of the reports that were put last, and what memory has is such a report or what is left
of it. -/
structure Holds (sources : List String) (last : String → Detail → Option Report) (c : Cache) : Prop where
  stored : ∃ s, c.store = some s
    ∧ ∀ source ∈ sources, ∀ detail, s.load? (.of source detail) = (last source detail).map Report.persisted
  held : ∀ source ∈ sources, ∀ detail report, (CacheKey.of source detail, report) ∈ c.entries →
    ∃ put, last source detail = some put ∧ (report = put ∨ report = put.persisted)

variable {sources : List String} {last : String → Detail → Option Report} {c : Cache} {source : String}
  {detail : Detail}

theorem holds_start (sources : List String) (capacity : Nat) :
    Holds sources (fun _ _ => none) (.ofStore capacity (some .empty)) :=
  ⟨⟨.empty, rfl, fun _ _ _ => rfl⟩, fun _ _ _ _ he => absurd he not_mem_nil⟩

namespace Holds

/-- What is known under the key of a text is the report that was put last, or what is left of it. -/
theorem known? (h : Holds sources last c) (hsource : source ∈ sources) (detail : Detail) :
    (last source detail = none ∧ c.known? (.of source detail) = none)
      ∨ ∃ put report, last source detail = some put ∧ c.known? (.of source detail) = some report
        ∧ (report = put ∨ report = put.persisted) := by
  obtain ⟨s, hs, hload⟩ := h.stored
  unfold Cache.known?
  cases hheld : c.held? (.of source detail) with
  | some report =>
    obtain ⟨put, hput, hreport⟩ := h.held source hsource detail report (mem_of_held? hheld)
    exact .inr ⟨put, report, hput, rfl, hreport⟩
  | none =>
    rw [hs, Option.bind_some, Option.none_or, hload source hsource detail]
    cases hlast : last source detail with
    | none => exact .inl ⟨rfl, rfl⟩
    | some put => exact .inr ⟨put, put.persisted, rfl, rfl, .inr rfl⟩

/-- A call keeps store and memory in step with the reports that were put last. -/
theorem after (h : Holds sources last c)
    (hdigest : ∀ s ∈ sources, ∀ t ∈ sources, Digest.ofText s = Digest.ofText t → s = t) {call : StoreCall}
    (hcall : ∀ source ∈ call.source?, source ∈ sources) :
    Holds sources (fun source detail => call.lastAfter source detail (last source detail)) (c.after call) := by
  obtain ⟨s, hs, hload⟩ := h.stored
  -- Keys tell apart what is asked for.
  have hkey {source other : String} {detail level : Detail} (hsource : source ∈ sources) (hother : other ∈ sources) :
      CacheKey.of source detail = CacheKey.of other level ↔ other = source ∧ level = detail := by
    constructor
    · intro heq
      obtain ⟨htext, hlevel⟩ := CacheKey.mk.inj heq
      exact ⟨(hdigest source hsource other hother htext).symm, hlevel.symm⟩
    · rintro ⟨rfl, rfl⟩
      rfl
  cases call with
  | put other level report =>
    have hother : other ∈ sources := hcall other rfl
    refine ⟨⟨s.save (.of other level) report, by rw [Cache.after, put, hs]; rfl, ?_⟩, ?_⟩
    · intro source hsource detail
      rw [Store.load?_save, StoreCall.lastAfter, hload source hsource detail]
      simp only [hkey hsource hother]
      split <;> rfl
    · intro source hsource detail report' he
      rcases mem_remember he with heq | ⟨hbefore, hne⟩
      · obtain ⟨hsame, rfl⟩ := Prod.mk.inj heq
        exact ⟨report', if_pos ((hkey hsource hother).mp hsame), .inl rfl⟩
      · obtain ⟨put, hput, hreport⟩ := h.held source hsource detail report' hbefore
        exact ⟨put, (if_neg fun hsame => hne ((hkey hsource hother).mpr hsame)).trans hput, hreport⟩
  | get other level =>
    have hother : other ∈ sources := hcall other rfl
    rcases h.known? hother level with ⟨-, hknown⟩ | ⟨put, report, hput, hknown, hreport⟩
    · rw [Cache.after, lookup_of_none hknown]
      exact ⟨⟨s, hs, hload⟩, h.held⟩
    · rw [Cache.after, lookup_of_some hknown]
      refine ⟨⟨s, hs, hload⟩, ?_⟩
      intro source hsource detail report' he
      rcases mem_remember he with heq | ⟨hbefore, -⟩
      · obtain ⟨hsame, rfl⟩ := Prod.mk.inj heq
        obtain ⟨rfl, rfl⟩ := (hkey hsource hother).mp hsame
        exact ⟨put, hput, hreport⟩
      · exact h.held source hsource detail report' hbefore
  | clear =>
    refine ⟨⟨.empty, by rw [Cache.after, clear, hs]; rfl, fun _ _ _ => rfl⟩, ?_⟩
    exact fun _ _ _ _ he => absurd he not_mem_nil
  | reopen capacity => exact ⟨⟨s, hs, hload⟩, fun _ _ _ _ he => absurd he not_mem_nil⟩

end Holds

/-! ## Sessions -/

/-- Calls keep store and memory in step with the reports that were put last. -/
theorem holds_foldl (h : Holds sources last c)
    (hdigest : ∀ s ∈ sources, ∀ t ∈ sources, Digest.ofText s = Digest.ofText t → s = t)
    (hcalls : calls.filterMap StoreCall.source? ⊆ sources) :
    Holds sources (fun source detail => calls.foldl (StoreCall.lastAfter source detail) (last source detail))
      (calls.foldl Cache.after c) := by
  induction calls generalizing last c with
  | nil => exact h
  | cons call calls ih =>
    have hcall : ∀ source ∈ call.source?, source ∈ sources := fun source hsource =>
      hcalls (mem_filterMap.mpr ⟨call, mem_cons_self, hsource⟩)
    refine ih (h.after hdigest hcall) (List.Subset.trans ?_ hcalls)
    exact Sublist.subset ((sublist_cons_self call calls).filterMap _)

/-- What was put last was put. -/
theorem put_mem_of_last? {report : Report} (h : StoreCall.last? calls source detail = some report) :
    .put source detail report ∈ calls := by
  induction calls using List.reverseRecOn with
  | nil => simp [StoreCall.last?] at h
  | append_singleton calls call ih =>
    rw [mem_append]
    rw [StoreCall.last?, foldl_concat] at h
    cases call with
    | put other level report' =>
      rw [StoreCall.lastAfter] at h
      split at h
      · rename_i hsame
        obtain ⟨rfl, rfl⟩ := hsame
        obtain rfl := Option.some.inj h
        exact .inr mem_cons_self
      · exact .inl (ih h)
    | get => exact .inl (ih h)
    | clear => simp [StoreCall.lastAfter] at h
    | reopen => exact .inl (ih h)

/-- What was put comes back. A cache on an empty store is put reports of analyses into, asked, emptied and opened anew,
in any order and with any capacities. Afterwards it gives nothing for a text and a level of detail for which nothing was
put since it was emptied. Where something was put, it gives the last report, or what a store leaves of it, which is the
same if the amounts of its controls are finite. The digests must tell the texts apart. -/
theorem lookup_last (capacity : Nat) (calls : List StoreCall)
    (hproduced : ∀ source detail report, .put source detail report ∈ calls → report.Produced) (source : String)
    (detail : Detail)
    (hdigest : ∀ s ∈ source :: calls.filterMap StoreCall.source?, ∀ t ∈ source :: calls.filterMap StoreCall.source?,
      Digest.ofText s = Digest.ofText t → s = t)
    (answer : Option Report)
    (hanswer : answer = ((calls.foldl after (.ofStore capacity (some .empty))).lookup (.of source detail)).1) :
    (StoreCall.last? calls source detail = none → answer = none)
    ∧ ∀ report, StoreCall.last? calls source detail = some report →
      (answer = some report ∨ answer = some report.persisted) ∧ (report.isFinite = true → answer = some report) := by
  have hholds := holds_foldl (holds_start _ capacity) hdigest (subset_cons_self source _)
  subst hanswer
  rcases hholds.known? mem_cons_self detail with ⟨hlast, hknown⟩ | ⟨put, report, hlast, hknown, hreport⟩
  · rw [lookup_of_none hknown]
    exact ⟨fun _ => rfl, fun report hput => absurd (hlast.symm.trans hput) (by simp)⟩
  · rw [lookup_of_some hknown]
    refine ⟨fun hnone => absurd (hlast.symm.trans hnone) (by simp), ?_⟩
    intro report' hput
    obtain rfl : put = report' := Option.some.inj (hlast.symm.trans hput)
    rcases hreport with rfl | rfl
    · exact ⟨.inl rfl, fun _ => rfl⟩
    · refine ⟨.inr rfl, fun hfinite => ?_⟩
      rw [(hproduced source detail put (put_mem_of_last? hput)).persisted_eq hfinite]

/-- A report is put over another, forgotten, and asked for through a new cache; a second text is forgotten for good. -/
def putCalls (first second : Report) : List StoreCall :=
  [.put "process=!;" .basic second, .clear, .put "process=_;" .basic second, .put "process=_;" .basic first,
    .put "process=_;" .full second, .get "process=_;" .basic, .reopen 0, .get "process=_;" .full, .reopen 1]

/-- With room for one report or none, `putCalls` leave the report that was put last, and nothing for the second text. -/
theorem lookup_last_forgotten :
    ∃ first second, Registry.standard.analyze .standard .basic "process=_;" = .ok first
      ∧ Registry.standard.analyze .standard .full "process=_;" = .ok second ∧ first.isFinite = true
      ∧ StoreCall.last? (putCalls first second) "process=_;" .basic = some first
      ∧ StoreCall.last? (putCalls first second) "process=!;" .basic = none
      ∧ (((putCalls first second).foldl after (.ofStore 1 (some .empty))).lookup (.of "process=_;" .basic)).1
          = some first
      ∧ (((putCalls first second).foldl after (.ofStore 1 (some .empty))).lookup (.of "process=!;" .basic)).1
          = none := by
  have hread : ∀ detail : Detail, (Registry.standard.analyze .standard detail "process=_;").toOption.map Report.isFinite
      = some true
    | .basic => by decide +kernel
    | .full => by decide +kernel
  obtain ⟨first, hfirst, hfinite⟩ := exists_ok_of_view (hread .basic)
  obtain ⟨second, hsecond, -⟩ := exists_ok_of_view (hread .full)
  have hproduced : ∀ source detail report, .put source detail report ∈ putCalls first second → report.Produced := by
    intro source detail report hput
    have hreport : report = first ∨ report = second := by
      simp only [putCalls, mem_cons, not_mem_nil, StoreCall.put.injEq, reduceCtorEq, false_or, or_false] at hput
      rcases hput with ⟨-, -, h⟩ | ⟨-, -, h⟩ | ⟨-, -, h⟩ | ⟨-, -, h⟩
      · exact .inr h
      · exact .inr h
      · exact .inl h
      · exact .inr h
    rcases hreport with rfl | rfl
    · exact ⟨.standard, .standard, .basic, _, by simp [Settings.standard], hfirst⟩
    · exact ⟨.standard, .standard, .full, _, by simp [Settings.standard], hsecond⟩
  have hdigest : ∀ s ∈ ["process=_;", "process=!;"], ∀ t ∈ ["process=_;", "process=!;"],
      Digest.ofText s = Digest.ofText t → s = t := by decide +kernel
  have htexts (source : String) (hsource : source ∈ ["process=_;", "process=!;"]) :
      source :: (putCalls first second).filterMap StoreCall.source? ⊆ ["process=_;", "process=!;"] := by
    refine cons_subset.mpr ⟨hsource, ?_⟩
    show ["process=!;", "process=_;", "process=_;", "process=_;", "process=_;", "process=_;"] ⊆ _
    simp
  have hput : StoreCall.last? (putCalls first second) "process=_;" .basic = some first := rfl
  have hcleared : StoreCall.last? (putCalls first second) "process=!;" .basic = none := rfl
  refine ⟨first, second, hfirst, hsecond, hfinite, hput, hcleared, ?_, ?_⟩
  · have hsub := htexts "process=_;" (by simp)
    exact ((lookup_last 1 _ hproduced "process=_;" .basic
      (fun s hs t ht => hdigest s (hsub hs) t (hsub ht)) _ rfl).2 first hput).2 hfinite
  · have hsub := htexts "process=!;" (by simp)
    exact (lookup_last 1 _ hproduced "process=!;" .basic
      (fun s hs t ht => hdigest s (hsub hs) t (hsub ht)) _ rfl).1 hcleared

/-- A slider without an upper bound. -/
def boundlessSlider : String := "process = hslider(\"a\", 0, 0, 1e999, 1);"

/-- The report on `boundlessSlider` does not come back from a store as it was put: the bound is gone. -/
theorem lookup_ne_last_boundless :
    ∃ report, Registry.standard.analyze .standard .basic boundlessSlider = .ok report
      ∧ StoreCall.last? [.put boundlessSlider .basic report, .reopen 1] boundlessSlider .basic = some report
      ∧ (([StoreCall.put boundlessSlider .basic report, .reopen 1].foldl after (.ofStore 1 (some .empty))).lookup
        (.of boundlessSlider .basic)).1 ≠ some report := by
  have hread : (Registry.standard.analyze .standard .basic boundlessSlider).toOption.map (fun report =>
      (report.outline.map fun o => o.controls.map (·.high),
       report.persisted.outline.map fun o => o.controls.map (·.high)))
      = some (some [some (.infinite false)], some [none]) := by
    decide +kernel
  obtain ⟨report, hreport, hseen⟩ := exists_ok_of_view hread
  refine ⟨report, hreport, rfl, ?_⟩
  have hknown : (Cache.ofStore 1 (some (Store.save .empty (.of boundlessSlider .basic) report))).known?
      (.of boundlessSlider .basic) = some report.persisted := by
    rw [Cache.known?, Cache.ofStore, Option.bind_some, Store.load?_save, if_pos rfl]
    rfl
  have hlookup : ([StoreCall.put boundlessSlider .basic report, .reopen 1].foldl after
      (.ofStore 1 (some .empty))).lookup (.of boundlessSlider .basic) = _ := lookup_of_some hknown
  rw [hlookup]
  intro hsame
  obtain ⟨hput, hkept⟩ := Prod.mk.inj hseen
  rw [Option.some.inj hsame, hput] at hkept
  simp at hkept

end Cache

end Patchbay
