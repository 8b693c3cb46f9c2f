import Patchbay.Proofs.Sizing.Constants
import Patchbay.Proofs.Sizing.History

/-!
# Sizing is not stopped

Two kinds of boxes stop the machine: an iteration whose count is not finite, and a group without content. A constant of
a program is the value of one of its numbers, so the first kind needs a number that is not finite. The second one cannot
occur when groups are known to have two arguments. Cycles do not matter.
-/

namespace Patchbay.Sizing

variable {c : Context} {D ds : List Definition} {ms : List Moment} {s : State} {p : Program}

/-- A machine whose boxes do not stop it is never stopped. -/
theorem History.fault_eq_none (h : History c ds ms s) (hD : Domain c D) (hds : ds ⊆ D)
    (hhalts : ∀ d ∈ D, ∀ b ∈ bodyBoxes c d, ∀ dim?, ¬ Halts c dim? b) : s.fault = none := by
  induction h with
  | start => rfl
  | @act ms s a h hfault ha _ =>
    cases ha with
    | next | opening => exact (openDefinition_eq s _).2.1.trans hfault
    | preparing => exact hfault
    | @sizing d b rest below hframes _ =>
      obtain ⟨hcourse, -⟩ := h.course hD hds
      obtain ⟨hd, hb, -, -⟩ := hcourse.mem_bodyBoxes hframes
      rw [after_sizing c hframes, (enter_eq _ _ _).2.2.2.2]
      exact ((keeps_sizeBox c s b).fault hfault).mpr (hhalts d (hcourse.subset hd) b hb _)
    | closing => exact (Course.frames_closeDefinition s _).2.2.2.2.trans hfault

/-- Sizing a program with finite numbers is not stopped, if groups are known to have two arguments. It comes to an
end. -/
theorem sizeProgram_faultless (primitives : Primitives) (available : Libraries)
    (hids : (p.nodes.map (·.mark.id)).Nodup)
    (hfinite : ∀ mark value text, Node.box (.number mark value text) ∈ p.nodes → value.isFinite)
    (hgroups : ∀ name ∈ groups, (primitives.get? name).bind (·.uiArgs) = some 2) :
    (sizeProgram (programSizing primitives available p) p).fault = none
      ∧ (sizeProgram (programSizing primitives available p) p).frames = []
      ∧ ∀ f ∈ (sizeProgram (programSizing primitives available p) p).findings,
        Reported (programSizing primitives available p) f.issue := by
  obtain ⟨hhistory, hends⟩ := sizeProgram_ends primitives available hids _ rfl
  have hfault : (sizeProgram (programSizing primitives available p) p).fault = none := by
    obtain ⟨hD, hds⟩ := domain_program primitives available hids rfl
    refine hhistory.fault_eq_none hD hds ?_
    rintro d hd b hb dim? ⟨-, hhalts⟩
    cases b with
    | ref | number | string | compose | block => exact hhalts
    | call mark name args =>
      obtain ⟨symbol, -, hhalts⟩ := hhalts
      split at hhalts
      · rename_i count body hparts
        obtain ⟨-, value, hconstant, -, hinfinite⟩ := hhalts
        -- The count is an argument, so it is a node of the program.
        obtain ⟨binder, rfl⟩ := exists_of_iterationParts? hparts
        have hcount := p.partsIn_nodes _ (box_mem_nodes hd hb) (.box count) (by simp [Node.children])
        obtain ⟨mark', text, hnumber⟩ :=
          p.exists_number_of_constant? hids rfl hcount hconstant
        exact absurd (hinfinite.symm.trans (hfinite mark' value text hnumber)) Bool.false_ne_true
      · obtain ⟨-, hlength, hgroup, hfew⟩ := hhalts
        have htwo := hlength 2 (hgroups name (List.contains_iff_mem.mp hgroup))
        omega
  exact ⟨hfault, (hends hfault).1, hhistory.reported⟩

end Patchbay.Sizing
