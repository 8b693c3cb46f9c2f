import Patchbay.Cache

/-!
# Reports read back from a store

A store keeps a report as a document in which a float that is not finite is null. `Report.persisted` is what is left of
a report: an amount of a control that is not finite is gone, and so is such a float among the data of a diagnostic.
Every report that is kept can be read back, and this is what is read.
-/

open List

namespace Patchbay

open Datum

/-! ## What is left -/

/-- An amount that a store can keep. -/
def keptAmount (amount : Option Binary64) : Option Binary64 := amount.filter Binary64.isFinite

/-- A control as it comes back from a store. -/
def Control.persisted (c : Control) : Control :=
  { c with
    initial := keptAmount c.initial
    low := keptAmount c.low
    high := keptAmount c.high
    step := keptAmount c.step }

theorem Datum.map_fst_fieldsStored (fields : List (String × Datum)) :
    (fieldsStored fields).map (·.1) = fields.map (·.1) := by
  induction fields with
  | nil => rfl
  | cons field rest ih => rw [fieldsStored, map_cons, ih, map_cons]

/-- Data as they come back from a store. -/
def Datum.storedTable (data : Table String Datum) : Table String Datum :=
  ⟨fieldsStored data.entries, (map_fst_fieldsStored data.entries).symm ▸ data.distinct⟩

/-- A diagnostic as it comes back from a store. -/
def Diagnostic.persisted (d : Diagnostic) : Diagnostic := { d with data := storedTable d.data }

/-- An outline as it comes back from a store. -/
def Outline.persisted (o : Outline) : Outline := { o with controls := o.controls.map Control.persisted }

/-- A report as it comes back from a store. -/
def Report.persisted (r : Report) : Report :=
  { r with
    diagnostics := r.diagnostics.map Diagnostic.persisted
    quickFixes := r.quickFixes.map Diagnostic.persisted
    outline := r.outline.map Outline.persisted }

/-! ## Fields and lists -/

namespace Datum

variable {α β : Type} {name : String} {fields : List (String × Datum)} {datum : Datum} {check : Datum → Checked β}
  {value : β}

theorem required_eq_ok (hfield : field? name fields = some datum) (h : check datum = .ok value) :
    required name check fields = .ok value := by
  rw [required, hfield]
  dsimp only
  rw [h]
  rfl

theorem defaulted_eq_ok {absent : β} (hfield : field? name fields = some datum) (h : check datum = .ok value) :
    defaulted name absent check fields = .ok value := by
  rw [defaulted, hfield]
  dsimp only
  rw [h]
  rfl

theorem itemsStored_eq_map (items : List Datum) : itemsStored items = items.map stored := by
  induction items with
  | nil => rfl
  | cons d ds ih => rw [itemsStored, ih, map_cons]

variable {items : List α} {toDatum : α → Datum} {f : α → β}

theorem all_zipIdx (h : ∀ a ∈ items, check (toDatum a) = .ok (f a))
    (start : Nat) :
    Checked.all (((items.map toDatum).zipIdx start).map fun item => Checked.under (.index item.2) (check item.1))
      = .ok (items.map f) := by
  induction items generalizing start with
  | nil => rfl
  | cons a rest ih =>
    obtain ⟨hfirst, hrest⟩ := forall_mem_cons.mp h
    rw [map_cons, zipIdx_cons, map_cons, Checked.all, ih hrest]
    rw [hfirst]
    rfl

/-- Items that can all be read back make a list that can. -/
theorem checkList_eq_ok
    (h : ∀ a ∈ items, check (toDatum a).stored = .ok (f a)) :
    checkList check (.list (itemsStored (items.map toDatum))) = .ok (items.map f) := by
  rw [itemsStored_eq_map, map_map]
  exact all_zipIdx h 0

theorem checkList_text (texts : List String) :
    checkList checkText (.list (itemsStored (texts.map .text))) = .ok texts := by
  rw [checkList_eq_ok (f := id) fun _ _ => rfl, map_id]

/-- A value that can be read back, or none. -/
theorem checkOption_eq_ok (hnull : ∀ a, (toDatum a).stored ≠ .null) {value : Option α}
    (h : ∀ a ∈ value, check (toDatum a).stored = .ok (f a)) :
    checkOption check (ofOption toDatum value).stored = .ok (value.map f) := by
  cases value with
  | none => rfl
  | some a =>
    have hcheck := h a rfl
    have hsome : checkOption check (toDatum a).stored = (check (toDatum a).stored).map some := by
      unfold checkOption
      split
      · rename_i hstored
        exact absurd hstored (hnull a)
      · rfl
    rw [ofOption, hsome, hcheck]
    rfl

/-- Of an amount the store keeps what is finite. -/
theorem checkOption_amount (amount : Option Binary64) :
    checkOption checkFloat (ofOption .float amount).stored = .ok (keptAmount amount) := by
  cases amount with
  | none => rfl
  | some value => cases value <;> rfl

theorem all_named {entries : List (String × Datum)} :
    Checked.all (entries.map fun f => (Checked.under (.key f.1) (.ok f.2)).map fun v => (f.1, v)) = .ok entries := by
  induction entries with
  | nil => rfl
  | cons e rest ih =>
    rw [map_cons, Checked.all, ih]
    rfl

theorem checkTable_ok (t : Table String Datum) : checkTable .ok (.record t.entries) = .ok t := by
  unfold checkTable
  dsimp only
  rw [all_named]
  exact congrArg Except.ok t.ofList_entries

end Datum

/-! ## Diagnostics -/

theorem Position.check_stored (p : Position) : Position.check p.toDatum.stored = .ok p := rfl

theorem Diagnostic.check_stored (d : Diagnostic) : Diagnostic.check d.toDatum.stored = .ok d.persisted := by
  have hkind : checkNamed DiagnosticKind.all DiagnosticKind.name (.text d.kind.name) = .ok d.kind := by
    cases d.kind <;> rfl
  have hseverity : checkNamed Severity.all Severity.name (.text d.severity.name) = .ok d.severity := by
    cases d.severity <;> rfl
  have hsubtype : checkOption (checkNamed Mismatch.all Mismatch.name)
      (ofOption (fun s => .text s.name) d.subtype).stored = .ok d.subtype := by
    cases d.subtype with
    | none => rfl
    | some subtype => cases subtype <;> rfl
  have hsuggestion : checkOption checkText (ofOption .text d.suggestion).stored = .ok d.suggestion := by
    cases d.suggestion <;> rfl
  have hrelated : checkList Position.check (.list (itemsStored (d.related.map Position.toDatum)))
      = .ok d.related := by
    rw [checkList_eq_ok (f := id) fun p _ => Position.check_stored p, map_id]
  have hdata := checkTable_ok (storedTable d.data)
  simp only [Diagnostic.check, Diagnostic.toDatum, stored, fieldsStored, checkRecord, bind, Except.bind,
    pure, Except.pure]
  rewrite [required_eq_ok rfl hkind, required_eq_ok rfl hseverity, defaulted_eq_ok rfl hsubtype,
    defaulted_eq_ok rfl hsuggestion, defaulted_eq_ok rfl hrelated, defaulted_eq_ok rfl hdata]
  rfl

/-! ## Outlines -/

theorem ImportInfo.check_stored (i : ImportInfo) : ImportInfo.check i.toDatum.stored = .ok i := rfl

theorem DeclarationInfo.check_stored (d : DeclarationInfo) : DeclarationInfo.check d.toDatum.stored = .ok d := rfl

theorem Control.check_stored (c : Control) : Control.check c.toDatum.stored = .ok c.persisted := by
  have hinitial := checkOption_amount c.initial
  have hlow := checkOption_amount c.low
  have hhigh := checkOption_amount c.high
  have hstep := checkOption_amount c.step
  simp only [Control.check, Control.toDatum, stored, fieldsStored, checkRecord, bind, Except.bind, pure,
    Except.pure]
  rewrite [defaulted_eq_ok rfl hinitial, defaulted_eq_ok rfl hlow, defaulted_eq_ok rfl hhigh,
    defaulted_eq_ok rfl hstep]
  rfl

theorem DefinitionInfo.toData_eq_map (ds : List DefinitionInfo) : DefinitionInfo.toData ds = ds.map toDatum := by
  induction ds with
  | nil => rfl
  | cons d rest ih => rw [DefinitionInfo.toData, ih, map_cons]

/-- A definition of an outline from a document whose parts can be read. -/
theorem DefinitionInfo.check_stored_of_locals (fuel : Nat) (d : DefinitionInfo)
    (h : ∀ e ∈ d.locals, DefinitionInfo.check fuel e.toDatum.stored = .ok e) :
    DefinitionInfo.check (fuel + 1) d.toDatum.stored = .ok d := by
  obtain ⟨name, line, params, dimension, locals⟩ := d
  have hparams := checkList_text params
  have hdimension : checkOption Dimension.check (ofOption Dimension.toDatum dimension).stored
      = .ok dimension := by
    cases dimension <;> rfl
  have hlocals : checkList (DefinitionInfo.check fuel)
      (.list (itemsStored (locals.map DefinitionInfo.toDatum))) = .ok locals := by
    rw [checkList_eq_ok (f := id) h, map_id]
  simp only [DefinitionInfo.check, DefinitionInfo.toDatum, DefinitionInfo.toData_eq_map, stored,
    fieldsStored, checkRecord, bind, Except.bind, pure, Except.pure]
  rewrite [defaulted_eq_ok rfl hparams, defaulted_eq_ok rfl hdimension, defaulted_eq_ok rfl hlocals]
  rfl

variable {d : Datum} {items : List Datum} {fields : List (String × Datum)}

namespace Datum

theorem depth_le_itemsDepth (h : d ∈ items) : d.depth ≤ itemsDepth items := by
  induction items with
  | nil => cases h
  | cons e rest ih =>
    rw [itemsDepth]
    rcases mem_cons.mp h with rfl | h
    · exact Nat.le_max_left _ _
    · exact Nat.le_trans (ih h) (Nat.le_max_right _ _)

theorem depth_le_fieldsDepth {name : String} (h : (name, d) ∈ fields) : d.depth ≤ fieldsDepth fields := by
  induction fields with
  | nil => cases h
  | cons e rest ih =>
    obtain ⟨other, value⟩ := e
    rw [fieldsDepth]
    rcases mem_cons.mp h with h | h
    · obtain ⟨-, rfl⟩ := Prod.mk.inj h
      exact Nat.le_max_left _ _
    · exact Nat.le_trans (ih h) (Nat.le_max_right _ _)

/-- What a list in a field holds is nested less deeply, by the list and the record. -/
theorem depth_lt_of_mem_field (name : String) (hfield : (name, .list items) ∈ fields) (h : d ∈ items) :
    d.depth + 2 ≤ (record fields).depth := by
  have hitem := depth_le_itemsDepth h
  have hlist : 1 + itemsDepth items ≤ fieldsDepth fields := by
    rw [← depth]
    exact depth_le_fieldsDepth hfield
  have hrecord : (record fields).depth = 1 + fieldsDepth fields := by rw [depth]
  omega

end Datum

/-- The fields of a definition of an outline, its local definitions among them. -/
theorem DefinitionInfo.depth_of_mem_locals {d e : DefinitionInfo} (h : e ∈ d.locals) :
    e.toDatum.stored.depth + 2 ≤ d.toDatum.stored.depth := by
  obtain ⟨name, line, params, dimension, locals⟩ := d
  simp only [DefinitionInfo.toDatum, DefinitionInfo.toData_eq_map, stored, fieldsStored,
    itemsStored_eq_map]
  exact depth_lt_of_mem_field "locals" (by simp) (mem_map_of_mem (mem_map_of_mem h))

theorem DefinitionInfo.check_stored (fuel : Nat) (d : DefinitionInfo) (hfuel : d.toDatum.stored.depth < fuel) :
    DefinitionInfo.check fuel d.toDatum.stored = .ok d := by
  induction fuel generalizing d with
  | zero => omega
  | succ fuel ih =>
    refine DefinitionInfo.check_stored_of_locals fuel d fun e he => ih e ?_
    have hdepth := DefinitionInfo.depth_of_mem_locals he
    omega

theorem Outline.check_stored (diagnostics : List Diagnostic) (o : Outline) :
    Outline.check (o.toDatum diagnostics).stored = .ok o.persisted := by
  obtain ⟨detail, definitions, imports, controls, declarations, hasProcess, unused, metrics⟩ := o
  generalize hdatum : (Outline.toDatum diagnostics
    ⟨detail, definitions, imports, controls, declarations, hasProcess, unused, metrics⟩).stored = datum
  have hdetail : checkNamed Detail.all Detail.name (.text detail.name) = .ok detail := by
    cases detail <;> rfl
  have hdefinitions : checkList (DefinitionInfo.check datum.depth)
      (.list (itemsStored (definitions.map DefinitionInfo.toDatum))) = .ok definitions := by
    rw [checkList_eq_ok (f := id) fun d hd => DefinitionInfo.check_stored _ d ?_, map_id]
    have hdepth : d.toDatum.stored.depth + 2 ≤ datum.depth := by
      rw [← hdatum]
      simp only [Outline.toDatum, DefinitionInfo.toData_eq_map, stored, fieldsStored,
        itemsStored_eq_map]
      exact depth_lt_of_mem_field "definitions" (by simp) (mem_map_of_mem (mem_map_of_mem hd))
    omega
  have himports : checkList ImportInfo.check (.list (itemsStored (imports.map ImportInfo.toDatum)))
      = .ok imports := by
    rw [checkList_eq_ok (f := id) fun i _ => ImportInfo.check_stored i, map_id]
  have hcontrols : checkList Control.check (.list (itemsStored (controls.map Control.toDatum)))
      = .ok (controls.map Control.persisted) :=
    checkList_eq_ok fun c _ => Control.check_stored c
  have hdeclarations : checkList DeclarationInfo.check
      (.list (itemsStored (declarations.map DeclarationInfo.toDatum))) = .ok declarations := by
    rw [checkList_eq_ok (f := id) fun d _ => DeclarationInfo.check_stored d, map_id]
  have hhasProcess : checkOption checkBool (ofOption .bool hasProcess).stored = .ok hasProcess := by
    cases hasProcess <;> rfl
  have hunused : checkOption (checkList checkText)
      (ofOption (fun names => .list (names.map .text)) unused).stored = .ok unused := by
    rw [checkOption_eq_ok (f := id) (fun names h => absurd h (by simp [stored]))
      fun names _ => checkList_text names]
    simp
  have hmetrics : checkOption Metrics.check (ofOption Metrics.toDatum metrics).stored = .ok metrics := by
    cases metrics <;> rfl
  rw [← hdatum] at hdefinitions ⊢
  simp only [Outline.check, Outline.toDatum, DefinitionInfo.toData_eq_map, stored, fieldsStored,
    checkRecord, bind, Except.bind, pure, Except.pure] at hdefinitions ⊢
  rewrite [defaulted_eq_ok rfl hdetail, defaulted_eq_ok rfl hdefinitions, defaulted_eq_ok rfl himports,
    defaulted_eq_ok rfl hcontrols, defaulted_eq_ok rfl hdeclarations, defaulted_eq_ok rfl hhasProcess,
    defaulted_eq_ok rfl hunused, defaulted_eq_ok rfl hmetrics]
  rfl

/-! ## Reports -/

/-- A report that is kept can be read back, and what is read is what is left of it. -/
theorem Report.check_stored (r : Report) : Report.check r.toDatum.stored = .ok r.persisted := by
  have hdiagnostics : checkList Diagnostic.check (.list (itemsStored (r.diagnostics.map Diagnostic.toDatum)))
      = .ok (r.diagnostics.map Diagnostic.persisted) :=
    checkList_eq_ok fun d _ => Diagnostic.check_stored d
  have hquickFixes : checkList Diagnostic.check (.list (itemsStored (r.quickFixes.map Diagnostic.toDatum)))
      = .ok (r.quickFixes.map Diagnostic.persisted) :=
    checkList_eq_ok fun d _ => Diagnostic.check_stored d
  have houtline : checkOption Outline.check (ofOption (Outline.toDatum r.diagnostics) r.outline).stored
      = .ok (r.outline.map Outline.persisted) :=
    checkOption_eq_ok (fun o h => absurd h (by simp [Outline.toDatum, stored]))
      fun o _ => Outline.check_stored r.diagnostics o
  have hdigest : checkOption checkText (ofOption .text r.digest).stored = .ok r.digest := by
    cases r.digest <;> rfl
  simp only [Report.check, Report.toDatum, stored, fieldsStored, checkRecord, bind, Except.bind, pure,
    Except.pure]
  rewrite [defaulted_eq_ok rfl hdiagnostics, defaulted_eq_ok rfl hquickFixes,
    defaulted_eq_ok rfl houtline, defaulted_eq_ok rfl hdigest]
  rfl

namespace Store

/-- What was kept last under a key is read back. -/
theorem load?_save (s : Store) (key other : CacheKey) (report : Report) :
    (s.save key report).load? other = if other = key then some report.persisted else s.load? other := by
  unfold load? save
  rw [Table.get?_insert]
  split
  · rw [Option.bind_some, Report.check_stored]
    rfl
  · rfl

end Store

end Patchbay
