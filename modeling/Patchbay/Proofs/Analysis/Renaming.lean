import Patchbay.Proofs.Analysis.Likeness
import Patchbay.Proofs.Renaming.Visit

/-!
# Local names do not matter

A parameter, a local definition or the variable of an iteration may be called anything that is not mentioned in the
program. Some stages look at the spelling of a name, but only where it is bound to something built in, and what a scope
binds is never built in. So a program has the same dimensions after a renaming, and the same is reported at the same
places.
-/

namespace Patchbay

/-- The summary of a finding does not depend on names. -/
theorem Finding.summary_mapNames (f : String → String) (finding : Finding) :
    (finding.mapNames f).summary = finding.summary := by
  obtain ⟨position, issue⟩ := finding
  cases issue <;> rfl

theorem Sizing.summaries_mapNames (f : String → String) (sized : Except Fault State) :
    (sized.map fun s => (s.dims, s.findings.map (Finding.mapNames f))).map (Prod.map id (List.map Finding.summary))
      = sized.map fun s => (s.dims, s.findings.map Finding.summary) := by
  cases sized with
  | error fault => rfl
  | ok s =>
    have hsummaries : (s.findings.map (Finding.mapNames f)).map Finding.summary = s.findings.map Finding.summary := by
      rw [List.map_map]
      exact List.map_congr_left fun finding _ => finding.summary_mapNames f
    exact congrArg (fun findings => Except.ok (s.dims, findings)) hsummaries

section

variable (primitives : Primitives) (available : Libraries) {p : Program} {ρ : Renaming}

/-- What a scope binds is not built in. -/
theorem Program.spares_mentions (hids : (p.nodes.map (·.mark.id)).Nodup)
    (hvalid : ∀ n ∈ p.nodes, n.mark.invalid = false) : ρ.Spares (p.resolve primitives available).1 p.mentions := by
  intro m hm huse hscope
  have hresolved := Program.resolved_mentions primitives available hids hvalid hm huse
  unfold Mention.Resolved at hresolved
  rw [hscope] at hresolved
  obtain ⟨n, -, symbol, -, hsymbol, hbound⟩ := hresolved
  rw [hbound, Option.any_some, Symbol.isBuiltin]
  rcases Lexical.kind_of_mem_symbols (List.mem_of_find?_eq_some hsymbol) with hkind | hkind
  · rw [hkind]
    rfl
  · rw [hkind]
    rfl

variable (hids : (p.nodes.map (·.mark.id)).Nodup) (hvalid : ∀ n ∈ p.nodes, n.mark.invalid = false)
  (hfresh : ρ.Fresh p.mentions)

include hids hvalid hfresh

theorem Program.suits_mentions : Lexical.Suits ρ (p.resolve primitives available).1 p.mentions :=
  ⟨hfresh, Program.spares_mentions primitives available hids hvalid⟩

include primitives available in
theorem Program.nodup_rename : ((p.rename ρ).nodes.map (·.mark.id)).Nodup := by
  have hsuits := Program.suits_mentions primitives available hids hvalid hfresh
  have hmarks := congrArg (List.map Mark.id)
    (Lexical.renamed_program primitives (.kept available p) (p.resolve primitives available).1 hsuits).marks
  rw [List.map_map, List.map_map] at hmarks
  exact hmarks ▸ hids

theorem Program.alike_rename :
    Sizing.Alike .unnamed (Sizing.programSizing primitives available p)
      (Sizing.programSizing primitives available (p.rename ρ)) :=
  ⟨(Program.alike_resolve_rename primitives available
      (Program.suits_mentions primitives available hids hvalid hfresh)).1, rfl,
    Sizing.coherent_resolve primitives available hids,
    Sizing.coherent_resolve primitives available (Program.nodup_rename primitives available hids hvalid hfresh)⟩

end

/-- Local names do not matter. Let no node of a program be invalid and all have different numbers, and let a renaming
give what one scope binds under some name a name that is mentioned nowhere in the program. The resolution binds each use
of a name to what its scope binds for it. The renaming keeps all marks and changes the names of exactly those mentions,
binding ones and uses, that belong to its scope and have the old name. Then the same is reported about names, with the
same kinds, subtypes and severities and at the same places. The dimensions are the same and so are the summaries of what
is reported about them, or there are none for the same reason; and the same is reported about controls. -/
theorem Program.local_names_irrelevant (primitives : Primitives) (available : Libraries) (p : Program) (ρ : Renaming)
    (hids : (p.nodes.map (·.mark.id)).Nodup) (hvalid : ∀ n ∈ p.nodes, n.mark.invalid = false)
    (hfresh : ∀ m ∈ p.mentions, m.name ≠ ρ.new) :
    (∀ m ∈ p.mentions, m.binding = false → m.Resolved p (p.resolve primitives available).1)
    ∧ (p.rename ρ).nodes.map Node.mark = p.nodes.map Node.mark
    ∧ (p.rename ρ).mentions = p.mentions.map (fun m =>
      if m.scope = some ρ.owner ∧ m.name = ρ.old then { m with name := ρ.new } else m)
    ∧ ((p.rename ρ).resolve primitives available).2.map Finding.summary
      = (p.resolve primitives available).2.map Finding.summary
    ∧ ((p.rename ρ).dimensions ((p.rename ρ).resolve primitives available).1 primitives).map
        (fun s => (s.dims, s.findings.map Finding.summary))
      = (p.dimensions (p.resolve primitives available).1 primitives).map
        (fun s => (s.dims, s.findings.map Finding.summary))
    ∧ rangeFindings ((p.rename ρ).controls ((p.rename ρ).resolve primitives available).1)
      = rangeFindings (p.controls (p.resolve primitives available).1)
    ∧ pathFindings ((p.rename ρ).controls ((p.rename ρ).resolve primitives available).1)
      = pathFindings (p.controls (p.resolve primitives available).1) := by
  have hsuits := Program.suits_mentions primitives available hids hvalid hfresh
  have hrenamed := Lexical.renamed_program primitives (.kept available p) (p.resolve primitives available).1 hsuits
  obtain ⟨hresolution, hreported⟩ := Program.alike_resolve_rename primitives available hsuits
  have hdefinitions : List.Forall₂ (Definition.Alike .unnamed (p.resolve primitives available).1
      ((p.rename ρ).resolve primitives available).1) p.definitions (p.rename ρ).definitions :=
    Definition.alike_renameAll p.definitions _ _ hsuits
  have hdimensions := (Program.alike_rename primitives available hids hvalid hfresh).dimensions hids
    (Program.nodup_rename primitives available hids hvalid hfresh) hdefinitions
  have hcontrols := Program.controls_alike hresolution hdefinitions
  refine ⟨?_, hrenamed.marks, ?_, hreported, ?_, ?_, ?_⟩
  · intro m hm huse
    exact Program.resolved_mentions primitives available hids hvalid hm huse
  · refine hrenamed.mentions.trans (List.map_congr_left ?_)
    intro m _
    unfold Mention.rename Renaming.apply
    split <;> rfl
  · have hsummaries := congrArg (Except.map (Prod.map id (List.map Finding.summary))) hdimensions
    rwa [Sizing.summaries_mapNames, Sizing.summaries_mapNames] at hsummaries
  · rw [← rangeFindings_mapOwner View.unnamed.shown, hcontrols, rangeFindings_mapOwner]
  · rw [← pathFindings_mapOwner View.unnamed.shown, hcontrols, pathFindings_mapOwner]

/-- The program `process = (_ ~ name) with { name = _; };`. -/
def feedback (name : String) : Program where
  imports := []
  declarations := []
  definitions :=
    [⟨markAt 1, "process", [],
      some (.block (markAt 2) (.compose (markAt 3) .recur (.ref (markAt 4) "_") (.ref (markAt 5) name))
        [⟨markAt 6, name, [], some (.ref (markAt 7) "_"), .start⟩]),
      .start⟩]

/-- A local definition that is called like the built-in delay is no delay, and so it is missed under either name. -/
theorem Program.local_names_irrelevant_feedback :
    ((feedback "mem").nodes.map (·.mark.id)).Nodup ∧ (∀ n ∈ (feedback "mem").nodes, n.mark.invalid = false)
    ∧ (∀ m ∈ (feedback "mem").mentions, m.name ≠ "wire")
    ∧ (feedback "mem").rename ⟨2, "mem", "wire"⟩ = feedback "wire"
    ∧ (((feedback "wire").dimensions ((feedback "wire").resolve standardPrimitives .empty).1 standardPrimitives).map
      fun s => (s.dims, s.findings.map Finding.summary)).toOption
      = some (.ofList [(4, ⟨1, 1⟩), (7, ⟨1, 1⟩), (6, ⟨1, 1⟩), (5, ⟨1, 1⟩), (3, ⟨0, 1⟩), (2, ⟨0, 1⟩), (1, ⟨0, 1⟩)],
        [⟨.causality, none, .warning, ⟨1, 3⟩⟩]) := by
  have hids : ((feedback "mem").nodes.map (·.mark.id)).Nodup := by decide
  have hvalid : ∀ n ∈ (feedback "mem").nodes, n.mark.invalid = false := by decide
  have hfresh : ∀ m ∈ (feedback "mem").mentions, m.name ≠ "wire" := by decide
  have hrename : (feedback "mem").rename ⟨2, "mem", "wire"⟩ = feedback "wire" := rfl
  obtain ⟨-, -, -, -, hdimensions, -, -⟩ :=
    Program.local_names_irrelevant standardPrimitives .empty (feedback "mem") ⟨2, "mem", "wire"⟩ hids hvalid hfresh
  refine ⟨hids, hvalid, hfresh, hrename, ?_⟩
  rw [← hrename, hdimensions]
  decide +kernel

end Patchbay
