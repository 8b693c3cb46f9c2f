import Mathlib.Data.List.Chain
import Patchbay.Proofs.Sizing.History

/-!
# Reported cycles are real

The definitions being sized form a path: each is open because the one around it refers to it or declares it. A cycle is
reported when a box of the innermost one refers to a definition on that path, so what is reported is the part of the
path from there on, closed by the box.

A block asks for the definitions that it declares as well, and these are never being sized at that time. A local
definition can be seen only from inside its owner, so it is opened after its owner and stands above it as long as it is
being sized.
-/

open List

namespace Patchbay

/-! ## Paths of definitions -/

/-- A box is within another one: it is that box, or within a part of it that is a box. What a block declares is not. -/
def Box.Within (x b : Box) : Prop := Relation.ReflTransGen (fun y z => Node.box y ∈ (Node.box z).children) x b

/-- A box stands in the body of a definition, outside the definitions that are local there. -/
def Definition.Holds (d : Definition) (b : Box) : Prop := ∃ body, d.body = some body ∧ b.Within body

theorem Issue.eq_circularDefinition {issue : Issue} (h : issue.kind = .circular) :
    ∃ names site, issue = .circularDefinition names site := by
  cases issue with
  | circularDefinition names site => exact ⟨names, site, rfl⟩
  | _ => simp [Issue.kind] at h

variable {b : Box} {a : Sizing.Action} {d e : Definition} {below : List Frame} {rest : List (Box × Bool)}

namespace Sizing

/-- A definition leads to another one: its body holds a reference to it, or a block that declares it. -/
def LeadsTo (r : Resolution) (d e : Definition) : Prop :=
  ∃ b, d.Holds b ∧ (Delay.referred? r b = some e ∨ e ∈ localsOf b)

/-- A path of different definitions, each leading to the next, and a reference in the last one back to the first. -/
structure ClosedPath (r : Resolution) (first : Definition) (rest : List Definition) (b : Box) : Prop where
  distinct : ((first :: rest).map (·.id)).Nodup
  linked : (first :: rest).IsChain (LeadsTo r)
  held : ((first :: rest).getLast (cons_ne_nil _ _)).Holds b
  closing : Delay.referred? r b = some first

/-- A closed path leads from its first definition back to it. -/
theorem ClosedPath.transGen {r : Resolution} {first : Definition} {rest : List Definition}
    (h : ClosedPath r first rest b) : Relation.TransGen (LeadsTo r) first first := by
  have hpath : Relation.ReflTransGen (LeadsTo r) first ((first :: rest).getLast (cons_ne_nil _ _)) :=
    relationReflTransGen_of_exists_isChain_cons rest h.linked rfl
  exact Relation.TransGen.tail' hpath ⟨b, h.held, .inl h.closing⟩

variable {c : Context} {D ds opened : List Definition} {ms : List Moment} {s : State} {p : Program}

/-- The boxes that are sized with a definition stand in its body. -/
theorem holds_of_mem_bodyBoxes (hb : b ∈ bodyBoxes c d) : d.Holds b := by
  cases hbody : d.validBody? with
  | none =>
    rw [bodyBoxes_of_none hbody] at hb
    cases hb
  | some body =>
    rw [bodyBoxes_of_some hbody] at hb
    refine ⟨body, body_of_validBody? hbody, ?_⟩
    refine of_mem_boxesIn (P := fun x => x.Within body) ?_ body .refl b hb
    intro y hy x hx
    exact Relation.ReflTransGen.head (box_mem_children hx) hy

/-- A box needs what it refers to and what it declares. -/
theorem referred_or_declared (h : e ∈ needs c s b) : Delay.referred? c.resolution b = some e ∨ e ∈ localsOf b := by
  have hdemands := mem_needs_iff.mp h
  cases b with
  | ref mark name => exact .inl hdemands
  | call mark name args => exact .inl hdemands.2
  | block mark body locals => exact .inr hdemands
  | number | string | compose => simp [Demands] at hdemands

/-! ## Owners are opened first -/

/-- In a list of opened definitions, the last one first, owners come behind what they own. -/
def OwnersFirst (c : Context) (p : Program) : List Definition → Prop
  | [] => True
  | e :: earlier => (∀ d ∈ sizedDefinitions c p, e ∈ owned c d → d ∈ earlier) ∧ OwnersFirst c p earlier

namespace OwnersFirst

variable (h : OwnersFirst c p opened)

include h

theorem owner_mem (he : e ∈ opened) (hd : d ∈ sizedDefinitions c p) (howned : e ∈ owned c d) : d ∈ opened := by
  induction opened with
  | nil => cases he
  | cons first earlier ih =>
    rcases mem_cons.mp he with rfl | he
    · exact mem_cons_of_mem _ (h.1 d hd howned)
    · exact mem_cons_of_mem _ (ih h.2 he)

/-- No definition owns itself or one that was opened before it. -/
theorem not_owned_self (hnodup : opened.Nodup) (hd : d ∈ opened)
    (hsized : d ∈ sizedDefinitions c p) : d ∉ owned c d := by
  induction opened with
  | nil => cases hd
  | cons first earlier ih =>
    rw [nodup_cons] at hnodup
    rcases mem_cons.mp hd with rfl | hd
    · exact fun howned => hnodup.1 (h.1 d hsized howned)
    · exact ih h.2 hnodup.2 hd

theorem pairwise (hnodup : opened.Nodup) (hsub : opened ⊆ sizedDefinitions c p) :
    opened.Pairwise fun later earlier => earlier ∉ owned c later := by
  induction opened with
  | nil => exact List.Pairwise.nil
  | cons first earlier ih =>
    rw [nodup_cons] at hnodup
    rw [cons_subset] at hsub
    refine List.Pairwise.cons ?_ (ih h.2 hnodup.2 hsub.2)
    -- An owner of something opened before was opened before as well.
    exact fun e he howned => hnodup.1 (h.2.owner_mem he hsub.1 howned)

/-- The owner of what can be seen from an opened definition was opened. -/
theorem owner_mem_of_visible (hnodup : (sizedDefinitions c p).Nodup) {x : Definition}
    (hvisible : Visible c p x e) (hx : x ∈ opened) (hsized : x ∈ sizedDefinitions c p) (hd : d ∈ sizedDefinitions c p)
    (howned : e ∈ owned c d) : d ∈ opened := by
  induction hvisible with
  | top he => exact absurd howned (not_owned hnodup hd he)
  | own he => exact owner_unique hnodup hsized hd he howned ▸ hx
  | outer howner hmem _ ih => exact ih (h.owner_mem hx howner hmem) howner howned

end OwnersFirst

/-! ## The path of the machine -/

/-- The definitions being sized form a path. They were opened one after another, and owners before what they own. -/
structure Path (c : Context) (p : Program) (ms : List Moment) (s : State) : Prop where
  opened : (s.frames.map (·.definition)).Sublist (openings ms).reverse
  linked : (s.frames.map (·.definition)).IsChain fun inner outer => LeadsTo c.resolution outer inner
  owners : OwnersFirst c p (openings ms).reverse

/-- Only opening and closing a definition changes which ones are being sized. -/
theorem definitions_after (ha : Enabled c ds s a) (hopened : a.opened? = none) :
    ((s.after c a).frames.map (·.definition)).IsSuffix (s.frames.map (·.definition)) := by
  cases ha with
  | next | opening => simp [Action.opened?] at hopened
  | preparing hframes =>
    rw [after_preparing c hframes, hframes]
    exact suffix_refl _
  | sizing hframes hneeded =>
    rw [after_sizing c hframes, (enter_eq _ _ _).1, hframes]
    exact suffix_refl _
  | @closing d below hframes =>
    rw [State.after, (Course.frames_closeDefinition s d).1, hframes]
    exact suffix_cons _ _

namespace Path

/-- A definition may be opened if its owners were, and if the one being sized leads to it. -/
theorem openDefinition (h : Path c p ms s)
    (howners : ∀ d ∈ sizedDefinitions c p, e ∈ owned c d → d ∈ (openings ms).reverse)
    (hlinked : ∀ d ∈ (s.frames.map (·.definition)).head?, LeadsTo c.resolution d e) :
    Path c p (ms ++ [⟨s, .opening e⟩]) (s.openDefinition e) := by
  have howners' : OwnersFirst c p (openings (ms ++ [⟨s, .opening e⟩])).reverse := by
    rw [reverse_openings_opening]
    exact ⟨howners, h.owners⟩
  unfold State.openDefinition
  split
  · refine ⟨?_, h.linked, howners'⟩
    rw [reverse_openings_opening]
    exact h.opened.cons e
  · refine ⟨?_, isChain_cons.mpr ⟨hlinked, h.linked⟩, howners'⟩
    rw [reverse_openings_opening]
    exact h.opened.cons_cons e

/-- Any other action leaves a path that ends in the same way. -/
theorem other (h : Path c p ms s) (ha : Enabled c ds s a) (hopened : a.opened? = none) :
    Path c p (ms ++ [⟨s, a⟩]) (s.after c a) := by
  have hsuffix := definitions_after ha hopened
  refine ⟨?_, h.linked.suffix hsuffix, ?_⟩
  · rw [openings_of_not_opening hopened]
    exact hsuffix.sublist.trans h.opened
  · rw [openings_of_not_opening hopened]
    exact h.owners

end Path

section

variable {primitives : Primitives} {available : Libraries} (hids : (p.nodes.map (·.mark.id)).Nodup)
  (hc : c = programSizing primitives available p)

include hids hc

variable (h : History c p.definitions ms s)

include h

/-- A history leaves a path. -/
theorem History.path : Path c p ms s := by
  obtain ⟨hD, hds⟩ := domain_program primitives available hids hc
  have hnodup : (sizedDefinitions c p).Nodup := (List.nodup_append.mp hD.nodup_append).1.of_map
  induction h with
  | start => exact ⟨Sublist.refl _, .nil, trivial⟩
  | @act ms s a h hfault ha ih =>
    obtain ⟨hcourse, -⟩ := h.course hD hds
    cases hopened : a.opened? with
    | none => exact ih.other ha hopened
    | some e =>
      obtain rfl := Action.eq_opening hopened
      cases ha with
      | next hframes he hdone =>
        -- A definition of the program has no owner, and nothing is being sized.
        refine ih.openDefinition (fun d hd howned => absurd howned (not_owned hnodup hd he)) ?_
        rw [hframes]
        exact fun d hd => absurd hd (by simp)
      | @opening d _ b rest below hframes hneeded =>
        obtain ⟨hmem, hb, -, -⟩ := hcourse.mem_bodyBoxes hframes
        have hd := hcourse.subset hmem
        obtain ⟨hneeds, -⟩ := mem_of_nextNeeded? hneeded
        have hcases := referred_or_declared hneeds
        refine ih.openDefinition ?_ ?_
        · intro owner howner howned
          rcases hcases with hreferred | hdeclared
          · have hvisible := visible_of_referred primitives available hids hc hd hb hreferred
            exact ih.owners.owner_mem_of_visible hnodup hvisible hmem hd howner howned
          · have hown : e ∈ owned c d := mem_flatMap.mpr ⟨b, hb, hdeclared⟩
            exact owner_unique hnodup hd howner hown howned ▸ hmem
        · rw [hframes]
          rintro _ ⟨⟩
          exact ⟨b, holds_of_mem_bodyBoxes hb, hcases⟩

/-- What a block declares is not being sized when the block is sized. -/
theorem History.not_closes_local
    (hframes : s.frames = ⟨d, (b, true) :: rest⟩ :: below) (he : e ∈ localsOf b) : ¬ s.Closes e := by
  obtain ⟨hD, hds⟩ := domain_program primitives available hids hc
  obtain ⟨hcourse, -⟩ := h.course hD hds
  have hpath := h.path hids hc
  obtain ⟨hopened, hb, -, -⟩ := hcourse.mem_bodyBoxes hframes
  have hd := hcourse.subset hopened
  have howned : e ∈ owned c d := mem_flatMap.mpr ⟨b, hb, he⟩
  rintro ⟨-, hactive⟩
  obtain ⟨f, hf, hid⟩ := any_eq_true.mp hactive
  obtain rfl : f.definition = e :=
    hD.definition_eq (hcourse.subset (hcourse.framed f hf).1) (owned_subset hd howned) (beq_iff_eq.mp hid)
  -- It would be the innermost definition itself, or one opened before that.
  have hpairwise := (hpath.owners.pairwise hcourse.nodup hcourse.subset).sublist hpath.opened
  rw [hframes, map_cons, pairwise_cons] at hpairwise
  rw [hframes] at hf
  rcases mem_cons.mp hf with rfl | hf
  · exact hpath.owners.not_owned_self hcourse.nodup hopened hd howned
  · exact hpairwise.1 _ (mem_map_of_mem hf) howned

/-- The cycle that a reference in the innermost definition closes is a closed path. -/
theorem History.closedPath (hframes : s.frames = ⟨d, (b, true) :: rest⟩ :: below)
    (hreferred : Delay.referred? c.resolution b = some e) (hcloses : s.Closes e) :
    ∃ others, s.cycleFrom e = e :: others ∧ ClosedPath c.resolution e others b
      ∧ ∀ x ∈ e :: others, Node.definition x ∈ p.nodes := by
  obtain ⟨hD, hds⟩ := domain_program primitives available hids hc
  obtain ⟨hcourse, -⟩ := h.course hD hds
  have hpath := h.path hids hc
  obtain ⟨hopened, hb, -, -⟩ := hcourse.mem_bodyBoxes hframes
  have hsuffix : (s.cycleFrom e).IsSuffix (s.frames.map (·.definition)).reverse := dropWhile_suffix _
  have hsized : ∀ x ∈ s.cycleFrom e, x ∈ sizedDefinitions c p := by
    intro x hx
    obtain ⟨f, hf, rfl⟩ := mem_map.mp (mem_reverse.mp (hsuffix.subset hx))
    exact hcourse.subset (hcourse.framed f hf).1
  cases hcycle : s.cycleFrom e with
  | nil => exact absurd hcycle (cycleFrom_ne_nil hcloses.2)
  | cons first others =>
    rw [hcycle] at hsuffix hsized
    -- The path from the definition that is referred to begins with it.
    have hfirst : first = e := by
      have hhead := head?_dropWhile_not (fun x : Definition => x.id != e.id) (s.frames.map (·.definition)).reverse
      rw [show List.dropWhile _ _ = first :: others from hcycle] at hhead
      have heD := hD.referred d (hcourse.subset hopened) b hb e hreferred
      exact hD.definition_eq (hsized first mem_cons_self) heD (by simpa using hhead)
    subst hfirst
    refine ⟨others, rfl, ⟨?_, ?_, ?_, hreferred⟩, fun x hx => definition_mem_nodes (hsized x hx)⟩
    · have hnodup := (List.nodup_append.mp (hcourse.nodup_status hD)).2.1
      refine (hsuffix.map (·.id)).sublist.nodup ?_
      rw [map_reverse, nodup_reverse, map_map]
      exact hnodup
    · exact (isChain_reverse.mpr hpath.linked).suffix hsuffix
    · -- It ends with the innermost definition.
      have hlast : (first :: others).getLast (cons_ne_nil _ _) = d := by
        obtain ⟨before, hbefore⟩ := hsuffix
        have hends := congrArg List.getLast? hbefore
        rw [getLast?_reverse, hframes, map_cons, head?_cons,
          getLast?_append_of_ne_nil _ (cons_ne_nil _ _), getLast?_eq_some_getLast
            (cons_ne_nil _ _)] at hends
        exact Option.some.inj hends
      rw [hlast]
      exact holds_of_mem_bodyBoxes hb

/-- A cycle that is reported in a moment is a closed path, reported at the reference that closes it. -/
theorem History.cycle_reported (ha : Enabled c p.definitions s (.sizing b))
    {f : Finding} (hf : f ∈ (⟨s, .sizing b⟩ : Moment).reports c) {names : List String} {site : Position}
    (hissue : f.issue = .circularDefinition names site) :
    ∃ first others, ClosedPath c.resolution first others b ∧ (∀ d ∈ first :: others, Node.definition d ∈ p.nodes)
      ∧ names = (first :: others).map (·.name) ∧ f.position = b.position ∧ site = first.position := by
  cases ha with
  | sizing hframes hneeded =>
    have hreport := report_of_sizing c s b
    generalize (⟨s, .sizing b⟩ : Moment).reports c = new at hf hreport
    generalize (sizeBox c s b).1 = dim at hreport
    cases hreport with
    | silent => cases hf
    | @mistake issue hkind =>
      obtain rfl := mem_singleton.mp hf
      rw [show issue = _ from hissue] at hkind
      simp [Issue.kind] at hkind
    | feedback =>
      obtain rfl := mem_singleton.mp hf
      simp at hissue
    | @cycle e hreferred hcloses =>
      obtain rfl := mem_singleton.mp hf
      obtain ⟨others, hcycle, hpath, hnodes⟩ := h.closedPath hids hc hframes hreferred hcloses
      obtain ⟨rfl, rfl⟩ := Issue.circularDefinition.inj hissue
      exact ⟨e, others, hpath, hnodes, by rw [hcycle], rfl, rfl⟩
    | @localCycles mark body locals _ hblock _ hnew =>
      -- There are none of these.
      obtain ⟨e, he, hcloses, -⟩ := hnew f hf
      subst hblock
      exact absurd hcloses (h.not_closes_local hids hc hframes he)

end

end Sizing

open Sizing in
/-- In a program whose nodes have different numbers every cycle that is reported is real: a path of different
definitions of the program, each of which holds a reference to the next or a block that declares it, and it is reported
at a reference in the last one to the first. If no definition leads back to itself no cycle is reported. -/
theorem Program.cycles_real (primitives : Primitives) (available : Libraries) (p : Program)
    (hids : (p.nodes.map (·.mark.id)).Nodup) :
    let r := (p.resolve primitives available).1
    let found := (sizeProgram (programSizing primitives available p) p).findings
    (∀ f ∈ found, ∀ names site, f.issue = .circularDefinition names site →
      ∃ first others b, ClosedPath r first others b ∧ (∀ d ∈ first :: others, Node.definition d ∈ p.nodes)
        ∧ names = (first :: others).map (·.name) ∧ f.position = b.position ∧ site = first.position)
    ∧ ((∀ d, Node.definition d ∈ p.nodes → ¬ Relation.TransGen (LeadsTo r) d d) →
      ∀ f ∈ found, f.issue.kind ≠ .circular) := by
  intro r found
  have hhistory := history_program primitives available hids
  have hreal : ∀ f ∈ found, ∀ names site, f.issue = .circularDefinition names site →
      ∃ first others b, ClosedPath r first others b ∧ (∀ d ∈ first :: others, Node.definition d ∈ p.nodes)
        ∧ names = (first :: others).map (·.name) ∧ f.position = b.position ∧ site = first.position := by
    intro f hf names site hissue
    rw [show found = _ from hhistory.findings] at hf
    obtain ⟨⟨s, a⟩, hm, hreports⟩ := mem_flatMap.mp hf
    obtain ⟨before, -, hbefore, -, ha⟩ := hhistory.exists_of_mem hm
    obtain ⟨b, rfl⟩ := exists_sizing_of_reports hreports
    obtain ⟨first, others, hpath, hrest⟩ := hbefore.cycle_reported hids rfl ha hreports hissue
    exact ⟨first, others, b, hpath, hrest⟩
  refine ⟨hreal, ?_⟩
  intro hacyclic f hf hkind
  obtain ⟨names, site, hissue⟩ := Issue.eq_circularDefinition hkind
  obtain ⟨first, others, b, hpath, hnodes, -⟩ := hreal f hf names site hissue
  exact hacyclic first (hnodes first mem_cons_self) hpath.transGen

/-- The program `process = f; f = g with { g = h(1); }; h(x) = f;`. -/
def knotted : Program where
  imports := []
  declarations := []
  definitions :=
    [⟨markAt 1, "process", [], some (.ref (markAt 2) "f"), .start⟩,
      ⟨markAt 3, "f", [],
        some (.block (markAt 4) (.ref (markAt 5) "g")
          [⟨markAt 6, "g", [], some (.call (markAt 7) "h" [.number (markAt 8) (.finite false 1) "1"]), .start⟩]),
        .start⟩,
      ⟨markAt 9, "h", ["x"], some (.ref (markAt 10) "f"), .start⟩]

open Sizing in
/-- In `knotted` the cycle goes through a local definition and a call. It is reported at the last reference. -/
theorem Program.cycles_real_knotted : (knotted.nodes.map (·.mark.id)).Nodup
    ∧ (sizeProgram (programSizing standardPrimitives .empty knotted) knotted).findings
      = [⟨⟨1, 10⟩, .circularDefinition ["f", "g", "h"] ⟨1, 3⟩⟩]
    ∧ ∃ first others b, ClosedPath (knotted.resolve standardPrimitives .empty).1 first others b
      ∧ (first :: others).map (·.name) = ["f", "g", "h"] ∧ first.position = ⟨1, 3⟩ ∧ b.position = ⟨1, 10⟩ := by
  have hids : (knotted.nodes.map (·.mark.id)).Nodup := by decide
  have hfindings : (sizeProgram (programSizing standardPrimitives .empty knotted) knotted).findings
      = [⟨⟨1, 10⟩, .circularDefinition ["f", "g", "h"] ⟨1, 3⟩⟩] := by decide
  obtain ⟨hreal, -⟩ := Program.cycles_real standardPrimitives .empty knotted hids
  obtain ⟨first, others, b, hpath, -, hnames, hposition, hsite⟩ :=
    hreal _ (hfindings ▸ mem_cons_self) _ _ rfl
  exact ⟨hids, hfindings, first, others, b, hpath, hnames.symm, hsite.symm, hposition.symm⟩

end Patchbay
