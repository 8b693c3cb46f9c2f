import Patchbay.Proofs.Analysis.Likeness
import Patchbay.Proofs.Sizing.Agreement

/-!
# The order of definitions does not matter

Definitions may be written in any order: names are bound to the same symbols, boxes get the same dimensions and the
same is reported, in some order. Controls are collected definition by definition and then checked in the order of the
text. Controls at one place may come in either order, which changes nothing but the order of what is reported.
-/

open List

namespace Patchbay

/-! ## Controls -/

/-- Reordered programs have the same controls if their nodes have the same symbols. -/
theorem Program.Reordered.perm_controls {p q : Program} (hpq : p.Reordered q) {r r' : Resolution}
    (h : ∀ id, r'.symbol? id = r.symbol? id) : (q.controls r').Perm (p.controls r) := by
  have hcontrols (d : Definition) : d.controls r' [] = d.controls r [] := by
    have hself : d.Alike (.whole id) r r' d := ((Node.definition d).alike_self fun _ _ => trivial).2 d rfl
    have hsame := Definition.Alike.controls (Resolution.alike_of_symbol?_eq h) d d hself []
    rwa [View.whole, show Control.mapOwner id = id from rfl, map_id, map_id] at hsame
  unfold Program.controls
  simp only [hcontrols]
  exact hpq.definitions.flatMap_right _

/-! ## Ranges -/

variable {p q : Position} {cs cs' : List Control}

theorem rangeFindings_perm (h : cs'.Perm cs) {findings : List Finding} (hfindings : rangeFindings cs = .ok findings) :
    ∃ findings', rangeFindings cs' = .ok findings' ∧ findings'.Perm findings := by
  obtain ⟨hall, rfl⟩ := rangeFindings_eq_ok_iff.mp hfindings
  refine ⟨_, rangeFindings_eq_ok_iff.mpr ⟨?_, rfl⟩, h.filterMap _⟩
  intro c hc
  exact hall c (h.mem_iff.mp hc)

/-! ## Paths -/

namespace Position

theorem before_total (p q : Position) : (p.before q || q.before p) := by
  simp only [before, Bool.or_eq_true, Bool.and_eq_true, decide_eq_true_eq]
  omega

theorem before_trans {r : Position} (h : p.before q) (h' : q.before r) : p.before r := by
  simp only [before, Bool.or_eq_true, Bool.and_eq_true, decide_eq_true_eq] at *
  omega

theorem before_antisymm (h : p.before q) (h' : q.before p) : p = q := by
  obtain ⟨line, column⟩ := p
  obtain ⟨line', column'⟩ := q
  simp only [before, Bool.or_eq_true, Bool.and_eq_true, decide_eq_true_eq] at h h'
  rw [Position.mk.injEq]
  omega

end Position

theorem Control.notAfter_trans (a b c : Control) (h : a.notAfter b) (h' : b.notAfter c) :
    a.notAfter c :=
  Position.before_trans h h'

theorem Control.notAfter_total (a b : Control) : (a.notAfter b || b.notAfter a) :=
  Position.before_total a.position b.position

/-- The path that a finding is about, if it says that a path is in use. -/
def Finding.path? : Finding → Option String
  | ⟨_, .pathInUse path _⟩ => some path
  | _ => none

theorem Finding.path?_pathInUse (place first : Position) (path : String) :
    (⟨place, .pathInUse path first⟩ : Finding).path? = some path := rfl

/-- What is found about controls of one path at places, one after another; the path may be in use before. -/
def clashesAt (path : String) : (holder : Option Position) → (places : List Position) → List Finding
  | some first, places => places.map fun place => ⟨place, .pathInUse path first⟩
  | none, [] => []
  | none, first :: places => places.map fun place => ⟨place, .pathInUse path first⟩

/-- What is found about a path depends on the places of the controls with this path. -/
theorem filter_clashesFrom (path : String) (cs : List Control) (seen : Table String Position) :
    (clashesFrom seen cs).filter (fun f => f.path? == some path)
      = clashesAt path (seen.get? path) ((cs.filter fun c => c.path == path).map (·.position)) := by
  induction cs generalizing seen with
  | nil => cases seen.get? path <;> rfl
  | cons c rest ih =>
    rw [clashesFrom, filter_cons]
    by_cases hpath : c.path = path
    · subst hpath
      cases hseen : seen.get? c.path with
      | some first => simp [Finding.path?_pathInUse, ih, hseen, clashesAt]
      | none => simp [ih, clashesAt]
    · rw [if_neg (by simpa using hpath)]
      cases hseen : seen.get? c.path with
      | some first => simp [Finding.path?_pathInUse, ih, hpath]
      | none => simp [ih, Table.get?_insert_of_ne _ (Ne.symm hpath)]

/-- The places of the controls with a path, in order, do not depend on the order of the controls. -/
theorem places_perm (h : cs'.Perm cs) (path : String) :
    ((cs'.mergeSort Control.notAfter).filter fun c => c.path == path).map (·.position)
      = ((cs.mergeSort Control.notAfter).filter fun c => c.path == path).map (·.position) := by
  have hsorted (l : List Control) :
      (((l.mergeSort Control.notAfter).filter fun c => c.path == path).map (·.position)).Pairwise
        fun p q => p.before q := by
    rw [pairwise_map]
    refine List.Pairwise.filter _ (pairwise_mergeSort ?_ ?_ l)
    · exact Control.notAfter_trans
    · exact Control.notAfter_total
  refine Perm.eq_of_pairwise (fun _ _ _ _ => Position.before_antisymm) (hsorted cs') (hsorted cs) ?_
  have hperm := (mergeSort_perm cs' Control.notAfter).trans
    (h.trans (mergeSort_perm cs Control.notAfter).symm)
  exact (hperm.filter _).map _

theorem exists_path?_of_kind {f : Finding} (h : f.issue.kind = .path) : ∃ path, f.path? = some path := by
  obtain ⟨position, issue⟩ := f
  cases issue with
  | pathInUse path first => exact ⟨path, rfl⟩
  | _ => simp [Issue.kind] at h

theorem pathFindings_perm (h : cs'.Perm cs) : (pathFindings cs').Perm (pathFindings cs) := by
  classical
  have hfilter (path : String) : (pathFindings cs').filter (fun f => f.path? == some path)
      = (pathFindings cs).filter (fun f => f.path? == some path) := by
    rw [pathFindings, pathFindings, filter_clashesFrom, filter_clashesFrom, places_perm h]
  rw [perm_iff_count]
  intro f
  by_cases hf : ∃ path, f.path? = some path
  · obtain ⟨path, hpath⟩ := hf
    have hcount (l : List Finding) : (l.filter fun g => g.path? == some path).count f = l.count f :=
      count_filter (by simp [hpath])
    rw [← hcount, hfilter, hcount]
  · -- Every finding is about some path.
    have hcount (l : List Control) : (pathFindings l).count f = 0 :=
      count_eq_zero_of_not_mem fun hmem => hf (exists_path?_of_kind (kind_of_mem_clashesFrom hmem))
    rw [hcount, hcount]

/-! ## Programs -/

open Sizing in
/-- The order of definitions does not matter, if their names are different. In two orders of a program that was read,
every node is bound to the same symbol, every definition is referred to as often, and the same is reported about names.
If one of them is sized without a cycle then so is the other, with the same dimensions and the same reported. The same
is reported about the controls, unless a number cannot be written, and then it cannot be in either order. -/
theorem Program.order_irrelevant {tokens : List Token} {maxDepth : Int} {p : Program} {grammatical : List Finding}
    (hparse : Program.parse tokens maxDepth = .ok (p, grammatical)) (hnames : (p.definitions.map (·.name)).Nodup)
    (primitives : Primitives) (available : Libraries) {q q' : Program} (hq : p.Reordered q) (hq' : p.Reordered q')
    {r r' : Resolution} {bound bound' : List Finding} (hr : q.resolve primitives available = (r, bound))
    (hr' : q'.resolve primitives available = (r', bound')) :
    (∀ id, r'.symbol? id = r.symbol? id)
    ∧ (∀ d, r'.referenceCount d = r.referenceCount d)
    ∧ bound'.Perm bound
    ∧ (∀ s, q.dimensions r primitives = .ok s → NoCycle s.findings →
      ∃ s', q'.dimensions r' primitives = .ok s' ∧ NoCycle s'.findings
        ∧ (∀ id, s'.dims.get? id = s.dims.get? id) ∧ s'.findings.Perm s.findings)
    ∧ ∀ ranges, rangeFindings (q.controls r) = .ok ranges →
      ∃ ranges', rangeFindings (q'.controls r') = .ok ranges'
        ∧ (ranges' ++ pathFindings (q'.controls r')).Perm (ranges ++ pathFindings (q.controls r)) := by
  have hids := hq.nodup_ids (nodup_ids_of_parse hparse)
  have hwhole := hq.whole fun n hn => whole_of_parse hparse hn
  have hnames' : (q.definitions.map (·.name)).Nodup := (hq.definitions.map _).nodup_iff.mpr hnames
  have hqq' := hq.symm.trans hq'
  obtain ⟨rfl, rfl⟩ : (q.resolve primitives available).1 = r ∧ (q.resolve primitives available).2 = bound := by
    rw [hr]
    exact ⟨rfl, rfl⟩
  obtain ⟨rfl, rfl⟩ : (q'.resolve primitives available).1 = r' ∧ (q'.resolve primitives available).2 = bound' := by
    rw [hr']
    exact ⟨rfl, rfl⟩
  have hsymbol := Lexical.symbol?_reordered hqq' hnames' primitives available hids
  have hcontrols := hqq'.perm_controls hsymbol
  refine ⟨hsymbol, ?_, ?_, ?_, ?_⟩
  · exact Lexical.referenceCount_reordered hqq' hnames' primitives available
  · exact Lexical.perm_resolve_reordered hqq' hnames' primitives available
  · intro s hs hcycle
    obtain ⟨hsize, hfault, hwritable⟩ := dimensions_eq_ok_iff.mp hs
    obtain ⟨hcycle', hfault', hdims, hfindings⟩ :=
      sizeProgram_reordered primitives available hqq' hnames' hids hwhole hsize.symm rfl hcycle hfault
    -- The same findings can be written, whatever their order.
    have hwritable' := hfindings.all_eq.trans hwritable
    exact ⟨_, dimensions_eq_ok_iff.mpr ⟨rfl, hfault', hwritable'⟩, hcycle', hdims, hfindings⟩
  · intro ranges hranges
    obtain ⟨ranges', hranges', hperm⟩ := rangeFindings_perm hcontrols hranges
    exact ⟨ranges', hranges', hperm.append (pathFindings_perm hcontrols)⟩

/-- A text whose first definition refers to the second one. -/
def crossed : String := "b = a : button(\"t\"); a = button(\"t\");"

/-- A button with the label `t`. -/
def buttonAt (owner : String) (position : Position) : Control :=
  ⟨"button", "t", "t", position, none, none, none, none, owner⟩

open Sizing in
/-- In `crossed` an output meets a box without inputs, and two buttons have one path. With the definitions the other way
round the same is reported. -/
theorem Program.order_irrelevant_crossed :
    ∃ p q : Program, Program.parse (scan crossed).1 8 = .ok (p, []) ∧ p.definitions.map (·.name) = ["b", "a"]
      ∧ q.definitions = p.definitions.reverse
      ∧ (∃ s, q.dimensions (q.resolve standardPrimitives .empty).1 standardPrimitives = .ok s
        ∧ s.findings.Perm [⟨⟨1, 7⟩, .badComposition .seq ⟨0, 1⟩ ⟨0, 1⟩⟩])
      ∧ ∃ ranges, rangeFindings (q.controls (q.resolve standardPrimitives .empty).1) = .ok ranges
        ∧ (ranges ++ pathFindings (q.controls (q.resolve standardPrimitives .empty).1)).Perm
          [⟨⟨1, 26⟩, .pathInUse "t" ⟨1, 9⟩⟩] := by
  have hread : (Program.parse (scan crossed).1 8).toOption.map (fun read =>
      let s := sizeProgram (programSizing standardPrimitives .empty read.1) read.1
      (read.2, read.1.definitions.map (·.name), s.fault, s.findings))
      = some ([], ["b", "a"], none, [⟨⟨1, 7⟩, .badComposition .seq ⟨0, 1⟩ ⟨0, 1⟩⟩]) := by
    decide +kernel
  have hcontrols : (Program.parse (scan crossed).1 8).toOption.map (fun read =>
      read.1.definitions.map fun d => d.controls (read.1.resolve standardPrimitives .empty).1 [])
        = some [[buttonAt "b" ⟨1, 9⟩], [buttonAt "a" ⟨1, 26⟩]] := by
    decide +kernel
  obtain ⟨⟨p, grammatical⟩, hparse, hseen⟩ := exists_ok_of_view hread
  simp only [Prod.mk.injEq] at hseen
  obtain ⟨rfl, hnames, hfault, hfindings⟩ := hseen
  rw [hparse] at hcontrols
  have hcollected : p.controls (p.resolve standardPrimitives .empty).1
      = [buttonAt "b" ⟨1, 9⟩, buttonAt "a" ⟨1, 26⟩] := by
    have heach := congrArg (List.flatMap fun cs => cs.mergeSort Control.notAfter) (Option.some.inj hcontrols)
    rw [flatMap_map] at heach
    exact heach.trans (by simp)
  have hpaths : pathFindings [buttonAt "b" ⟨1, 9⟩, buttonAt "a" ⟨1, 26⟩] = [⟨⟨1, 26⟩, .pathInUse "t" ⟨1, 9⟩⟩] := by
    rw [pathFindings, mergeSort_of_pairwise (by decide)]
    decide
  have hcycle : NoCycle (sizeProgram (programSizing standardPrimitives .empty p) p).findings := by
    rw [hfindings]
    intro f hf
    rw [mem_singleton.mp hf]
    simp
  have hsame : p.Reordered p := ⟨rfl, rfl, Perm.refl _⟩
  have hreversed : p.Reordered { p with definitions := p.definitions.reverse } :=
    ⟨rfl, rfl, reverse_perm p.definitions⟩
  obtain ⟨-, -, -, hdims, hstructure⟩ := Program.order_irrelevant hparse (by rw [hnames]; decide)
    standardPrimitives .empty hsame hreversed Prod.mk.eta.symm Prod.mk.eta.symm
  obtain ⟨s, hs, -, -, hperm⟩ := hdims (sizeProgram (programSizing standardPrimitives .empty p) p)
    (dimensions_eq_ok_iff.mpr ⟨rfl, hfault, by rw [hfindings]; decide +kernel⟩) hcycle
  obtain ⟨ranges, hranges, hboth⟩ := hstructure [] (by rw [hcollected]; rfl)
  rw [hfindings] at hperm
  rw [hcollected, hpaths] at hboth
  exact ⟨p, _, hparse, hnames, rfl, ⟨s, hs, hperm⟩, ranges, hranges, hboth⟩

end Patchbay
