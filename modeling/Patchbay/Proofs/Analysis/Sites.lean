import Patchbay.Proofs.Advice.Aggregation
import Patchbay.Proofs.Analysis.Returning
import Patchbay.Proofs.Scan.Tiling
import Patchbay.Proofs.Scope.Places

/-!
# Where diagnostics stand

The stages after reading look at statements, at definitions and at the boxes of valid definitions. These are the sites
of a program: what they report stands at a site, and so does all that it is related to. Sites were read at tokens, and a
token stands between two offsets of the text.
-/

open List

namespace Patchbay

/-! ## Sites -/

/-- Whether later stages can report on a node: neither on the program as a whole nor on a box that could not be read. -/
def Node.isSite : Node → Bool
  | .program _ => false
  | .box b => !b.invalid
  | _ => true

/-- The nodes that later stages can report on. -/
def Program.sites (p : Program) : List Node := p.nodes.filter Node.isSite

variable {b : Box} {issue : Issue} {rules : Rules} {s : State} {detail : Detail} {text source : String} {c : Context}
  {f : Finding} {outline : Outline} {p : Program} {q : Position} {g : Registry} {settings : Settings} {d' : Diagnostic}
  {findings : List Finding}

namespace Program

variable {p : Program}

theorem mem_sites_of_definition {d : Definition} (h : Node.definition d ∈ p.nodes) : Node.definition d ∈ p.sites :=
  mem_filter.mpr ⟨h, rfl⟩

theorem mem_sites_of_box (h : Node.box b ∈ p.nodes) (hvalid : b.invalid = false) : Node.box b ∈ p.sites :=
  mem_filter.mpr ⟨h, by simp [Node.isSite, hvalid]⟩

/-- Where invalid definitions are not entered, no invalid box is met. -/
theorem entered_sites (hwhole : ∀ n ∈ p.nodes, n.Whole) : Entered p.sites := by
  have hchild (n m : Node) (hn : n ∈ p.nodes) (hvalid : n.mark.invalid = false) (hm : m ∈ n.children) :
      m ∈ p.sites := by
    have hmem := p.partsIn_nodes n hn m hm
    cases m with
    | box b => exact mem_sites_of_box hmem (hwhole n hn hvalid b hm)
    | definition d => exact mem_sites_of_definition hmem
    | importing | declaration => exact mem_filter.mpr ⟨hmem, rfl⟩
    | program q => exact absurd rfl (Node.ne_program_of_mem_children hm q)
  constructor
  · intro b hb m hm
    obtain ⟨hnode, hvalid⟩ := mem_filter.mp hb
    have hvalid' : b.invalid = false := by simpa [Node.isSite] using hvalid
    exact hchild _ m hnode hvalid' hm
  · intro d hd hvalid m hm
    exact hchild _ m (mem_filter.mp hd).1 hvalid hm

end Program

/-! ## Names -/

/-- What is found while names are bound stands at sites. -/
theorem Lexical.standsAmong_of_mem_resolve {primitives : Primitives} {available : Libraries}
    (hwhole : ∀ n ∈ p.nodes, n.Whole) (hf : f ∈ (p.resolve primitives available).2) : f.StandsAmong p.sites := by
  refine standsAmong_of_entered (Program.entered_sites hwhole) ?_ ?_ hf
  · intro statement hstatement
    refine mem_filter.mpr ⟨?_, rfl⟩
    rw [Program.nodes]
    simp [hstatement]
  · exact fun d hd => Program.mem_sites_of_definition (p.mem_nodes_of_definition hd)

/-! ## Dimensions -/

namespace Sizing

variable {p : Program}

/-- Nothing is reported about a box that could not be read. -/
theorem reports_of_invalid (h : b.invalid) : (⟨s, .sizing b⟩ : Moment).reports c = [] := by
  have hsame : (s.after c (.sizing b)).findings = s.findings := by
    rw [findings_after_sizing]
    simp [sizeBox, h]
  rw [Moment.reports, Moment.after, hsame, drop_length]

theorem related_of_kind_dimension (h : issue.kind = .dimension) : issue.related = [] := by
  cases issue with
  | badComposition | tooManySignals | argumentCount | badChain => rfl
  | _ => simp [Issue.kind] at h

/-- What is reported about a box stands there, and is related to definitions that the box asks for. -/
theorem Report.standsAmong {dim : Option Dimension} {new : List Finding} {nodes : List Node} (h : Report c s b dim new)
    (hb : Node.box b ∈ nodes) (hreferred : ∀ e, Delay.referred? c.resolution b = some e → Node.definition e ∈ nodes)
    (hlocals : ∀ mark body locals, b = .block mark body locals → ∀ e ∈ locals, Node.definition e ∈ nodes) :
    ∀ f ∈ new, f.StandsAmong nodes := by
  intro f hf
  cases h with
  | silent => cases hf
  | mistake hkind hnamed =>
    rw [mem_singleton.mp hf]
    exact .single hb (related_of_kind_dimension hkind) fun name hname => ⟨b, hb, hnamed name hname⟩
  | feedback =>
    rw [mem_singleton.mp hf]
    exact .single hb rfl nofun
  | cycle he _ =>
    rw [mem_singleton.mp hf]
    exact .pair hb (hreferred _ he) (fun q hq => mem_singleton.mp hq) rfl
  | localCycles hblock _ hnew =>
    obtain ⟨e, he, -, rfl⟩ := hnew f hf
    have hsite := hlocals _ _ _ hblock e he
    exact .pair hsite hsite (fun q hq => mem_singleton.mp hq) rfl

/-- What is found while a program is sized stands at sites. -/
theorem standsAmong_of_mem_sized (primitives : Primitives) (available : Libraries)
    (hids : (p.nodes.map (·.mark.id)).Nodup)
    (hf : f ∈ (sizeProgram (programSizing primitives available p) p).findings) :
    f.StandsAmong p.sites := by
  have hhistory := history_program primitives available hids
  obtain ⟨hdomain, hds⟩ := domain_program primitives available hids rfl
  rw [hhistory.findings] at hf
  obtain ⟨m, hm, hreport⟩ := mem_flatMap.mp hf
  obtain ⟨b, hb⟩ := exists_sizing_of_reports hreport
  obtain ⟨s, a⟩ := m
  obtain rfl : a = .sizing b := hb
  -- The box that is sized is one of a definition that is sized.
  have hboxes := (hhistory.course hdomain hds).1.mem_boxes
    (mem_append_left _ (mem_sizings.mpr ⟨_, hm, rfl⟩))
  obtain ⟨d, hd, hbody⟩ := mem_flatMap.mp hboxes
  have hvalid : b.invalid = false := by
    cases h : b.invalid with
    | false => rfl
    | true => simp [reports_of_invalid h] at hreport
  have hsite := Program.mem_sites_of_box (box_mem_nodes hd hbody) hvalid
  have hdefinition {e : Definition} (he : e ∈ sizedDefinitions (programSizing primitives available p) p) :
      Node.definition e ∈ p.sites := Program.mem_sites_of_definition (definition_mem_nodes he)
  refine (report_of_sizing _ s b).standsAmong hsite ?_ ?_ f hreport
  · exact fun e he => hdefinition (hdomain.referred d hd b hbody e he)
  · rintro mark body locals rfl e he
    exact hdefinition (hdomain.locals d hd mark body locals hbody he)

end Sizing

/-! ## Controls -/

section Controls

variable {nodes : List Node} {cs : List Control} {f : Finding}

theorem Program.exists_site_of_mem_controls {r : Resolution} (hwhole : ∀ n ∈ p.nodes, n.Whole) {c : Control}
    (hc : c ∈ p.controls r) : ∃ n ∈ p.sites, n.mark.position = c.position := by
  have hdefinitions : ∀ d ∈ p.definitions, Node.definition d ∈ p.sites :=
    fun d hd => mem_sites_of_definition (p.mem_nodes_of_definition hd)
  obtain ⟨mark, name, args, label, groups, owner, hcall, -, rfl⟩ :=
    among_of_entered (entered_sites hwhole) hdefinitions hc
  exact ⟨_, hcall, rfl⟩

theorem related_of_kind_range (h : issue.kind = .range) : issue.related = [] ∧ issue.named? = none := by
  cases issue with
  | minimumAboveMaximum | defaultOutsideRange => exact ⟨rfl, rfl⟩
  | _ => simp [Issue.kind] at h

/-- What is wrong with a range is found at its control. -/
theorem standsAmong_of_mem_rangeFindings (h : rangeFindings cs = .ok findings)
    (hcs : ∀ c ∈ cs, ∃ n ∈ nodes, n.mark.position = c.position) (hf : f ∈ findings) : f.StandsAmong nodes := by
  obtain ⟨position, issue⟩ := f
  obtain ⟨c, hc, rfl, hissue, -⟩ := exists_control_of_mem_rangeFindings h hf
  obtain ⟨n, hn, hn'⟩ := hcs c hc
  obtain ⟨hrelated, hnamed⟩ := related_of_kind_range (Control.spec_of_rangeIssue? hissue).1
  rw [← hn']
  exact .single hn hrelated (by simp [hnamed])

/-- A path that is in use is found at its control, and the control that uses it is named. -/
theorem standsAmong_of_mem_clashesFrom {seen : Table String Position}
    (hseen : ∀ path q, seen.get? path = some q → ∃ n ∈ nodes, n.mark.position = q)
    (hcs : ∀ c ∈ cs, ∃ n ∈ nodes, n.mark.position = c.position) (hf : f ∈ clashesFrom seen cs) :
    f.StandsAmong nodes := by
  induction cs generalizing seen with
  | nil => cases hf
  | cons c rest ih =>
    obtain ⟨⟨n, hn, hposition⟩, hrest⟩ := forall_mem_cons.mp hcs
    rw [clashesFrom] at hf
    split at hf
    · rename_i first hfirst
      obtain ⟨m, hm, hfirst'⟩ := hseen _ _ hfirst
      rcases mem_cons.mp hf with rfl | hf
      · rw [← hposition, ← hfirst']
        exact .pair hn hm (fun q hq => mem_singleton.mp hq) rfl
      · exact ih hseen hrest hf
    · refine ih ?_ hrest hf
      intro path q hq
      rw [Table.get?_insert] at hq
      split at hq
      · exact ⟨n, hn, hposition.trans (Option.some.inj hq)⟩
      · exact hseen path q hq

theorem standsAmong_of_mem_pathFindings (hcs : ∀ c ∈ cs, ∃ n ∈ nodes, n.mark.position = c.position)
    (hf : f ∈ pathFindings cs) : f.StandsAmong nodes :=
  standsAmong_of_mem_clashesFrom (by simp) (fun c hc => hcs c (mem_mergeSort.mp hc)) hf

end Controls

/-! ## Offsets -/

/-- The place is that of an offset of the text. -/
def InText (text : String) (q : Position) : Prop :=
  ∃ offset ≤ text.toList.length, q = .ofOffset text.toList offset

namespace Scan

theorem Tiles.fits {text : List Char} {offset : Nat} {tiles : List Tile} (h : Tiles text offset tiles) :
    ∀ t ∈ tiles, t.Fits text := by
  induction h with
  | done => exact fun t ht => absurd ht not_mem_nil
  | next h _ ih => exact forall_mem_cons.mpr ⟨h, ih⟩

/-- Tokens and findings are cut from a text at offsets. -/
theorem inText_of_scan (text : String) :
    (∀ t ∈ (scan text).1, InText text t.start ∧ InText text t.stop) ∧
      ∀ f ∈ (scan text).2, InText text f.position := by
  obtain ⟨tiles, htiles, htokens, hfindings⟩ :=
    exists_tiles text.toList text.toList.length 0 (Nat.zero_add _)
  have htokens' : (scan text).1 = tiles.filterMap (Tile.token? text.toList) := htokens
  have hfindings' : (scan text).2 = tiles.filterMap (Tile.finding? text.toList) := hfindings
  constructor
  · intro t ht
    rw [htokens'] at ht
    obtain ⟨tile, htile, htoken⟩ := mem_filterMap.mp ht
    obtain ⟨hlt, hle, -⟩ := htiles.fits tile htile
    obtain ⟨kind, -, rfl⟩ := Option.map_eq_some_iff.mp htoken
    exact ⟨⟨tile.first, by omega, rfl⟩, ⟨tile.stop, hle, rfl⟩⟩
  · intro f hf
    rw [hfindings'] at hf
    obtain ⟨tile, htile, hfinding⟩ := mem_filterMap.mp hf
    obtain ⟨hlt, hle, -⟩ := htiles.fits tile htile
    obtain ⟨issue, -, rfl⟩ := Option.map_eq_some_iff.mp hfinding
    exact ⟨tile.first, by omega, rfl⟩

end Scan

theorem InText.of_at (h : AtToken (scan text).1 q) : InText text q := by
  obtain ⟨t, ht, rfl⟩ := h
  exact ((Scan.inText_of_scan text).1 t ht).1

theorem InText.of_near (h : NearToken (scan text).1 q) : InText text q := by
  rcases h with rfl | ⟨t, ht, rfl | rfl⟩
  · exact ⟨0, Nat.zero_le _, rfl⟩
  · exact ((Scan.inText_of_scan text).1 t ht).1
  · exact ((Scan.inText_of_scan text).1 t ht).2

/-! ## Reports -/

/-- The findings of an analysis are those of its stages, and its outline has the controls of the program. The counts
that sizing reports can be written. -/
theorem Registry.findings_of_examine (h : g.examine settings detail source = .ok (findings, outline)) :
    ∃ p grammatical ranges, Program.parse (scan source).1 settings.maxDepth = .ok (p, grammatical)
      ∧ outline.controls = p.controls (p.resolve g.primitives settings.libraries).1
      ∧ rangeFindings (p.controls (p.resolve g.primitives settings.libraries).1) = .ok ranges
      ∧ (∀ f ∈ (Sizing.sizeProgram (Sizing.programSizing g.primitives settings.libraries p) p).findings,
        f.issue.isWritable)
      ∧ findings = (scan source).2 ++ grammatical ++ (p.resolve g.primitives settings.libraries).2
        ++ (Sizing.sizeProgram (Sizing.programSizing g.primitives settings.libraries p) p).findings ++ ranges
        ++ pathFindings (p.controls (p.resolve g.primitives settings.libraries).1) := by
  simp only [examine, bind, Except.bind, pure, Except.pure] at h
  cases hparse : Program.parse (scan source).1 settings.maxDepth with
  | error fault => simp [hparse] at h
  | ok read =>
    obtain ⟨p, grammatical⟩ := read
    rw [hparse] at h
    dsimp only at h
    cases hdims : p.dimensions (p.resolve g.primitives settings.libraries).1 g.primitives with
    | error fault => simp [hdims] at h
    | ok sized =>
      obtain ⟨rfl, -, hwritable⟩ := Sizing.dimensions_eq_ok_iff.mp hdims
      rw [hdims] at h
      dsimp only [Program.outline] at h
      cases hranges : rangeFindings (p.controls (p.resolve g.primitives settings.libraries).1) with
      | error fault => simp [hranges] at h
      | ok ranges =>
        rw [hranges] at h
        obtain ⟨rfl, rfl⟩ := Prod.mk.inj (Except.ok.inj h)
        exact ⟨p, grammatical, ranges, rfl, rfl, hranges, all_eq_true.mp hwritable, rfl⟩

theorem Registry.analyze_eq_report (g : Registry) (h : settings.timeout = none) (detail : Detail) (source : String) :
    g.analyze settings detail source = g.report settings detail source := by
  rw [analyze, Settings.expired?, h]
  rfl

theorem takeLimit_subset {α : Type} (limit : Int) (items : List α) : takeLimit limit items ⊆ items := by
  unfold takeLimit
  split
  · exact take_subset _ _
  · exact take_subset _ _

/-- A report has the outline that was made, its diagnostics are findings with advice, and its quick fixes are among
them. -/
theorem Registry.spec_of_report {report : Report} (h : g.report settings detail source = .ok report) :
    ∃ findings outline, g.examine settings detail source = .ok (findings, outline) ∧ report.outline = some outline
      ∧ report.quickFixes ⊆ report.diagnostics
      ∧ ∀ d ∈ report.diagnostics, ∃ f ∈ findings, g.rules.annotate f.toDiagnostic = .ok d := by
  simp only [Registry.report, bind, Except.bind] at h
  cases hexamine : g.examine settings detail source with
  | error fault => simp [hexamine] at h
  | ok result =>
    obtain ⟨findings, outline⟩ := result
    simp only [hexamine, Report.aggregate, bind, Except.bind, pure, Except.pure] at h
    cases hannotated : g.rules.annotateAll (findings.map Finding.toDiagnostic) with
    | error fault => simp [hannotated] at h
    | ok annotated =>
      obtain rfl := Except.ok.inj (hannotated ▸ h)
      refine ⟨findings, outline, rfl, rfl, ?_, ?_⟩
      · exact List.Subset.trans (takeLimit_subset _ _) (filter_subset_self _)
      · intro d hd
        obtain ⟨e, he, heq⟩ := Rules.exists_of_annotateAll hannotated (mem_mergeSort.mp hd)
        obtain ⟨f, hf, rfl⟩ := mem_map.mp he
        exact ⟨f, hf, heq⟩

theorem related_of_kind_lexical (h : issue.kind = .lexical) : issue.related = [] := by
  cases issue with
  | unexpectedCharacter | unterminatedString | unterminatedComment => rfl
  | _ => simp [Issue.kind] at h

/-- What stands at sites of a program stands at tokens. -/
theorem Finding.StandsAmong.at_token {tokens : List Token} (h : f.StandsAmong p.sites)
    (hlocated : ∀ n ∈ p.nodes, n.Located tokens) : ∀ q ∈ f.position :: f.issue.related, AtToken tokens q := by
  intro q hq
  obtain ⟨n, hn, rfl⟩ := h.places q hq
  obtain ⟨hnode, hsite⟩ := mem_filter.mp hn
  have hn' := hlocated n hnode
  cases n with
  | program => simp [Node.isSite] at hsite
  | box b => exact (hn' (by simpa [Node.isSite] using hsite)).1
  | importing | declaration | definition => exact hn'

/-- What later stages find stands at sites. -/
theorem Registry.standsAmong_of_mem {grammatical ranges : List Finding}
    (hparse : Program.parse (scan source).1 settings.maxDepth = .ok (p, grammatical))
    (hranges : rangeFindings (p.controls (p.resolve g.primitives settings.libraries).1) = .ok ranges)
    (hf : f ∈ (scan source).2 ++ grammatical ++ (p.resolve g.primitives settings.libraries).2
      ++ (Sizing.sizeProgram (Sizing.programSizing g.primitives settings.libraries p) p).findings ++ ranges
      ++ pathFindings (p.controls (p.resolve g.primitives settings.libraries).1)) :
    f ∈ (scan source).2 ∨ f ∈ grammatical ∨ f.StandsAmong p.sites := by
  have hwhole : ∀ n ∈ p.nodes, n.Whole := fun n => Program.whole_of_parse hparse
  have hcontrols : ∀ c ∈ p.controls (p.resolve g.primitives settings.libraries).1,
      ∃ n ∈ p.sites, n.mark.position = c.position :=
    fun c hc => Program.exists_site_of_mem_controls hwhole hc
  simp only [mem_append] at hf
  rcases hf with ((((hf | hf) | hf) | hf) | hf) | hf
  · exact .inl hf
  · exact .inr (.inl hf)
  · exact .inr (.inr (Lexical.standsAmong_of_mem_resolve hwhole hf))
  · exact .inr (.inr (Sizing.standsAmong_of_mem_sized _ _ (Program.nodup_ids_of_parse hparse) hf))
  · exact .inr (.inr (standsAmong_of_mem_rangeFindings hranges hcontrols hf))
  · exact .inr (.inr (standsAmong_of_mem_pathFindings hcontrols hf))

/-- The findings of an analysis stand in the text, and those of the later stages at tokens. -/
theorem Registry.inText_of_examine (h : g.examine settings detail source = .ok (findings, outline))
    (hf : f ∈ findings) :
    (∀ q ∈ f.position :: f.issue.related, InText source q) ∧
      (f.issue.kind ≠ .lexical → f.issue.kind ≠ .grammar →
        ∀ q ∈ f.position :: f.issue.related, AtToken (scan source).1 q) := by
  obtain ⟨p, grammatical, ranges, hparse, -, hranges, -, rfl⟩ := findings_of_examine h
  obtain ⟨hnodes, hgrammatical⟩ := Program.located_of_parse hparse
  rcases standsAmong_of_mem hparse hranges hf with hf | hf | hsites
  · have hlexical := kind_of_mem_scan hf
    refine ⟨?_, fun hne => absurd hlexical hne⟩
    rw [related_of_kind_lexical hlexical]
    exact forall_mem_singleton.mpr ((Scan.inText_of_scan source).2 f hf)
  · obtain ⟨hnear, hrelated⟩ := hgrammatical f hf
    refine ⟨?_, fun _ hne => absurd (Program.grammatical_of_parse hparse f hf) hne⟩
    exact forall_mem_cons.mpr ⟨.of_near hnear, fun q hq => .of_at (hrelated q hq)⟩
  · have hat := hsites.at_token hnodes
    exact ⟨fun q hq => .of_at (hat q hq), fun _ _ => hat⟩

/-- Without a deadline, every diagnostic of a report and all it is related to have places of the text. Unless it comes
from cutting or reading the text, these are places of tokens. -/
theorem Registry.analyze_located (g : Registry) (settings : Settings) (detail : Detail) (source : String)
    (report : Report) (htimeout : settings.timeout = none) (h : g.analyze settings detail source = .ok report) :
    ∀ d ∈ report.diagnostics,
      (∀ q ∈ d.position :: d.related, InText source q) ∧
        (d.kind ≠ .lexical → d.kind ≠ .grammar → ∀ q ∈ d.position :: d.related, AtToken (scan source).1 q) := by
  intro d hd
  rw [analyze_eq_report g htimeout] at h
  obtain ⟨findings, outline, hexamine, -, -, hfindings⟩ := spec_of_report h
  obtain ⟨f, hf, hannotate⟩ := hfindings d hd
  obtain ⟨⟨suggestion, rfl⟩, -⟩ := Rules.annotate_eq hannotate
  exact inText_of_examine hexamine hf

/-- A text with a name that stands for nothing, one that is defined twice, and a parenthesis that is not closed. -/
def repeated : String := "x = y; x = x;\nprocess = (x, 1;"

/-- In `repeated` the second definition is related to the first one, and the missing parenthesis to the one that is
open. -/
theorem Registry.analyze_located_repeated :
    ∃ report, Registry.standard.analyze bareSettings .basic repeated = .ok report ∧
      ∀ d ∈ report.diagnostics,
        (∀ q ∈ d.position :: d.related, InText repeated q) ∧
          (d.kind ≠ .lexical → d.kind ≠ .grammar → ∀ q ∈ d.position :: d.related, AtToken (scan repeated).1 q) := by
  have hread : (Registry.standard.analyze bareSettings .basic repeated).toOption.map (·.outline.isSome)
      = some true := by
    decide +kernel
  obtain ⟨report, hreport, -⟩ := exists_ok_of_view hread
  exact ⟨report, hreport, Registry.analyze_located _ bareSettings .basic repeated report rfl hreport⟩

end Patchbay
