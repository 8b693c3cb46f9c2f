import Patchbay.Proofs.Sizing.Lockstep
import Patchbay.Proofs.Sizing.Once

/-!
# Programs that are alike are analyzed alike

Programs that are alike have the same dimensions and the same findings up to names. Their controls are the same up to
the names of the definitions around them, which the checks of controls do not read.
-/

open List

namespace Patchbay

variable {v : View}

/-! ## Dimensions -/

theorem Issue.isWritable_mapNames (f : String → String) (issue : Issue) :
    (issue.mapNames f).isWritable = issue.isWritable := by
  unfold Issue.mapNames
  split <;> rfl

theorem all_isWritable_mapNames (f : String → String) (findings : List Finding) :
    ((findings.map (Finding.mapNames f)).all fun x => x.issue.isWritable)
      = findings.all fun x => x.issue.isWritable := by
  rw [all_map]
  congr 1
  funext x
  exact x.issue.isWritable_mapNames f

namespace Sizing

section

variable {primitives : Primitives} {available : Libraries} {p q : Program}
  (hp : (p.nodes.map (·.mark.id)).Nodup) (hq : (q.nodes.map (·.mark.id)).Nodup)
  (h : Alike v (programSizing primitives available p) (programSizing primitives available q))
  (hdefinitions : Forall₂ (Definition.Alike v (p.resolve primitives available).1 (q.resolve primitives available).1)
    p.definitions q.definitions)

include hp hq h hdefinitions

/-- Programs that are alike are sized to states that are alike. The fuel of either is enough, so both may have the
greater one. -/
theorem Alike.sizeProgram :
    (Sizing.sizeProgram (programSizing primitives available p) p).Alike v (programSizing primitives available p)
      (programSizing primitives available q) (Sizing.sizeProgram (programSizing primitives available q) q) := by
  have hfueled := (sizedOnce primitives available hp rfl).fueled _ (Nat.le_max_left (fuelFor p) (fuelFor q))
  have hfueled' := (sizedOnce primitives available hq rfl).fueled _ (Nat.le_max_right (fuelFor p) (fuelFor q))
  rw [← hfueled, ← hfueled']
  exact h.sizeDefinitions (.start v _ _) hdefinitions _

/-- Programs that are alike have the same dimensions, and the same findings about them up to names. -/
theorem Alike.dimensions :
    (q.dimensions (q.resolve primitives available).1 primitives).map
        (fun s => (s.dims, s.findings.map (Finding.mapNames v.shown)))
      = (p.dimensions (p.resolve primitives available).1 primitives).map
        fun s => (s.dims, s.findings.map (Finding.mapNames v.shown)) := by
  have hs := h.sizeProgram hp hq hdefinitions
  have hwritable : ((Sizing.sizeProgram (programSizing primitives available q) q).findings.all
      fun f => f.issue.isWritable)
      = (Sizing.sizeProgram (programSizing primitives available p) p).findings.all fun f => f.issue.isWritable := by
    rw [← all_isWritable_mapNames v.shown, hs.findings, all_isWritable_mapNames]
  unfold programSizing at hs hwritable
  unfold Program.dimensions
  dsimp only
  rw [hwritable, hs.fault]
  split
  · cases (Sizing.sizeProgram ⟨(p.resolve primitives available).1, primitives⟩ p).fault with
    | some fault => rfl
    | none => exact congrArg Except.ok (Prod.ext hs.dims hs.findings)
  · rfl

end

end Sizing

/-! ## Controls -/

/-- A control with the name of the definition around it passed through a function. -/
def Control.mapOwner (f : String → String) (c : Control) : Control := { c with owner := f c.owner }

variable {r r' : Resolution}

variable {mark : Mark} {name name' : String} {args args' : List Box}

theorem firstLabel?_alike (hargs : Forall₂ (Box.Alike v r r') args args') :
    firstLabel? args' = firstLabel? args := by
  cases hargs with
  | nil => rfl
  | cons ha _ => cases ha <;> rfl

theorem Resolution.Alike.argument? (h : r.Alike v r') (hargs : Forall₂ (Box.Alike v r r') args args') (place : Nat) :
    r'.argument? args' place = r.argument? args place := by
  induction hargs generalizing place with
  | nil => rfl
  | cons ha _ ih =>
    cases place with
    | zero => exact h.constant? ha
    | succ place => exact ih place

theorem Resolution.Alike.group? (h : r.Alike v r') (hname : r.CallsAlike v mark.id name name')
    (hargs : Forall₂ (Box.Alike v r r') args args') : r'.group? mark name' args' = r.group? mark name args := by
  have hguard : (r'.isUi mark.id && Patchbay.groups.contains name')
      = (r.isUi mark.id && Patchbay.groups.contains name) := by
    rw [Bool.and_comm, Bool.and_comm (r.isUi mark.id)]
    exact h.and_any_kind hname (.inr rfl) Patchbay.groups.contains
  unfold Resolution.group?
  cases hargs with
  | nil => rfl
  | cons hlabel hrest =>
    cases hlabel with
    | ref | number | call | compose | block => rfl
    | string mark value =>
      cases hrest with
      | nil => rfl
      | cons _ hmore =>
        cases hmore with
        | cons => rfl
        | nil =>
          rw [hguard]

theorem Resolution.Alike.control? (h : r.Alike v r') (hname : r.CallsAlike v mark.id name name')
    (hargs : Forall₂ (Box.Alike v r r') args args') (groups : List String) {owner owner' : String}
    (howner : v.shown owner' = v.shown owner) :
    (r'.control? mark name' args' groups owner').map (Control.mapOwner v.shown)
      = (r.control? mark name args groups owner).map (Control.mapOwner v.shown) := by
  unfold Resolution.control?
  rw [firstLabel?_alike hargs]
  cases firstLabel? args with
  | none => rfl
  | some label =>
    dsimp only
    rw [Resolution.isUi, Resolution.isUi, h.any_kind hname.within (· == .ui)]
    cases hui : (r.symbol? mark.id).any (·.kind == .ui) with
    | false => rfl
    | true =>
      obtain rfl := hname.eq_of_any_kind (.inr rfl) hui
      rw [Bool.true_and]
      split
      · have hargument : r'.argument? args' = r.argument? args := funext (h.argument? hargs)
        simp only [Option.map_some, Control.mapOwner, Resolution.control, hargument, howner]
      · rfl

theorem Definition.controls_of_invalid (d : Definition) (h : d.mark.invalid) (groups : List String) :
    d.controls r groups = [] := by
  match d, h with
  | ⟨_, _, _, none, _⟩, _ => rfl
  | ⟨_, _, _, some _, _⟩, h => exact if_pos h

mutual

theorem Box.Alike.controls (h : r.Alike v r') (b b' : Box) (hb : b.Alike v r r' b') (groups : List String)
    {owner owner' : String} (howner : v.shown owner' = v.shown owner) :
    (b'.controls r' groups owner').map (Control.mapOwner v.shown)
      = (b.controls r groups owner).map (Control.mapOwner v.shown) := by
  match b, hb with
  | .ref _ _, .ref .. => rfl
  | .number _ _ _, .number .. => rfl
  | .string _ _, .string .. => rfl
  | .compose _ _ left right, .compose hleft hright =>
    rw [Box.controls, Box.controls, map_append, map_append,
      Box.Alike.controls h left _ hleft groups howner, Box.Alike.controls h right _ hright groups howner]
  | .block _ body locals, .block hbody hlocals =>
    rw [Box.controls, Box.controls, map_append, map_append,
      Box.Alike.controls h body _ hbody groups howner, Definition.Alike.controlsAll h locals _ hlocals groups]
  | .call mark name args, .call hname hargs =>
    rw [Box.controls, Box.controls, h.group? hname hargs]
    cases r.group? mark name args with
    | some inner => exact Box.Alike.controlsAll h args _ hargs _ howner
    | none =>
      have hcontrol := congrArg Option.toList (h.control? hname hargs groups howner)
      rw [Option.toList_map, Option.toList_map] at hcontrol
      rw [map_append, map_append, hcontrol, Box.Alike.controlsAll h args _ hargs groups howner]
termination_by structural b

theorem Box.Alike.controlsAll (h : r.Alike v r') (bs bs' : List Box)
    (hbs : Forall₂ (Box.Alike v r r') bs bs') (groups : List String) {owner owner' : String}
    (howner : v.shown owner' = v.shown owner) :
    (Box.controlsAll r' groups owner' bs').map (Control.mapOwner v.shown)
      = (Box.controlsAll r groups owner bs).map (Control.mapOwner v.shown) := by
  match bs, hbs with
  | [], .nil => rfl
  | b :: rest, .cons hb hrest =>
    rw [Box.controlsAll, Box.controlsAll, map_append, map_append,
      Box.Alike.controls h b _ hb groups howner, Box.Alike.controlsAll h rest _ hrest groups howner]
termination_by structural bs

theorem Definition.Alike.controls (h : r.Alike v r') (d d' : Definition) (hd : d.Alike v r r' d')
    (groups : List String) :
    (d'.controls r' groups).map (Control.mapOwner v.shown) = (d.controls r groups).map (Control.mapOwner v.shown) := by
  match d, hd with
  | ⟨_, _, _, _, _⟩, .invalid hinvalid _ _ _ =>
    rw [Definition.controls_of_invalid _ hinvalid, Definition.controls_of_invalid _ hinvalid]
  | ⟨_, _, _, none, _⟩, .valid _ _ .none => rfl
  | ⟨_, _, _, some body, _⟩, .valid hname _ (.some hbody) =>
    rw [Definition.controls, Definition.controls]
    split
    · rfl
    · exact Box.Alike.controls h body _ hbody groups hname
termination_by structural d

theorem Definition.Alike.controlsAll (h : r.Alike v r') (ds ds' : List Definition)
    (hds : Forall₂ (Definition.Alike v r r') ds ds') (groups : List String) :
    (Definition.controlsAll r' groups ds').map (Control.mapOwner v.shown)
      = (Definition.controlsAll r groups ds).map (Control.mapOwner v.shown) := by
  match ds, hds with
  | [], .nil => rfl
  | d :: rest, .cons hd hrest =>
    rw [Definition.controlsAll, Definition.controlsAll, map_append, map_append,
      Definition.Alike.controls h d _ hd groups, Definition.Alike.controlsAll h rest _ hrest groups]
termination_by structural ds

end

theorem mergeSort_mapOwner (f : String → String) (cs : List Control) :
    (cs.mergeSort Control.notAfter).map (Control.mapOwner f)
      = (cs.map (Control.mapOwner f)).mergeSort Control.notAfter :=
  map_mergeSort fun _ _ _ _ => rfl

/-- Programs that are alike have the same controls up to the names of the definitions around them. -/
theorem Program.controls_alike (h : r.Alike v r')
    {p q : Program} (hdefinitions : Forall₂ (Definition.Alike v r r') p.definitions q.definitions) :
    (q.controls r').map (Control.mapOwner v.shown) = (p.controls r).map (Control.mapOwner v.shown) := by
  have hsorted {d d' : Definition} (hd : d.Alike v r r' d') :
      ((d'.controls r' []).mergeSort Control.notAfter).map (Control.mapOwner v.shown)
        = ((d.controls r []).mergeSort Control.notAfter).map (Control.mapOwner v.shown) := by
    rw [mergeSort_mapOwner, mergeSort_mapOwner, Definition.Alike.controls h d d' hd []]
  unfold Program.controls
  rw [map_flatMap, map_flatMap]
  generalize p.definitions = ds, q.definitions = ds' at hdefinitions
  induction hdefinitions with
  | nil => rw [flatMap_nil, flatMap_nil]
  | cons hd _ ih => rw [flatMap_cons, flatMap_cons, hsorted hd, ih]

theorem rangeFindings_mapOwner (f : String → String) (cs : List Control) :
    rangeFindings (cs.map (Control.mapOwner f)) = rangeFindings cs := by
  induction cs with
  | nil => rfl
  | cons c rest ih =>
    rw [map_cons, rangeFindings, rangeFindings, ih]
    rfl

theorem pathFindings_mapOwner (f : String → String) (cs : List Control) :
    pathFindings (cs.map (Control.mapOwner f)) = pathFindings cs := by
  have hclashes (seen : Table String Position) (cs : List Control) :
      clashesFrom seen (cs.map (Control.mapOwner f)) = clashesFrom seen cs := by
    induction cs generalizing seen with
    | nil => rfl
    | cons c rest ih =>
      rw [map_cons, clashesFrom, clashesFrom, ih, ih]
      rfl
  unfold pathFindings
  rw [← mergeSort_mapOwner, hclashes]

end Patchbay
