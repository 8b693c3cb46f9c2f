import Patchbay.Proofs.Scope.Order
import Patchbay.Proofs.Sizing.Likeness
import Patchbay.Proofs.Sizing.Reliance

/-!
# Sizing does not depend on the order of definitions

The recursion looks only at the symbols of nodes, at constants and at primitives. Two contexts that agree about these
give every box the same outcome, and they have the same definitions grounded. Reordered programs have such contexts,
and the same boxes and definitions are sized in them. So the machine meets a cycle in both or in none of them, and
if in none it enters the same dimensions and reports the same, whatever the order in which it comes to things.
-/

namespace Patchbay.Sizing

/-- Two contexts give every node the same symbol and know the same primitives. -/
structure Agrees (c c' : Context) : Prop where
  symbol : ∀ id, c'.resolution.symbol? id = c.resolution.symbol? id
  primitives : c'.primitives = c.primitives

variable {b : Box} {dim? : Box → Option Dimension}

namespace Agrees

variable {c c' : Context}

/-! ## What is sized -/

theorem iterationParts? (h : Agrees c c') : iterationParts? c' = iterationParts? c := by
  funext id name args
  unfold Sizing.iterationParts?
  rw [h.symbol]

variable (h : Agrees c c')

include h

theorem operands : operands c' = operands c := by
  funext b
  cases b with
  | ref | number | string | compose | block => rfl
  | call mark name args => rw [Sizing.operands, Sizing.operands, h.iterationParts?]

theorem boxesIn (b : Box) : boxesIn c' b = boxesIn c b := by
  refine (sized_induct c (P := fun b => Sizing.boxesIn c' b = Sizing.boxesIn c b) (Q := fun _ => True) ?_
    fun _ _ => trivial).1 b
  intro b ih _
  rw [boxesIn_eq, boxesIn_eq, h.operands]
  exact congrArg _ (List.flatMap_congr ih)

theorem definitionsOf : (∀ b, definitionsIn c' b = definitionsIn c b) ∧
    ∀ d, definitionsOf c' d = definitionsOf c d := by
  refine sized_induct c ?_ ?_
  · intro b hboxes hlocals
    rw [definitionsIn_eq, definitionsIn_eq, h.operands, List.flatMap_congr hboxes, List.flatMap_congr hlocals]
  · intro d hbody
    cases hvalid : d.validBody? with
    | none => rw [definitionsOf_of_none hvalid, definitionsOf_of_none hvalid]
    | some body => rw [definitionsOf_of_some hvalid, definitionsOf_of_some hvalid, hbody body hvalid]

theorem definitionsOfAll (ds : List Definition) : definitionsOfAll c' ds = definitionsOfAll c ds := by
  rw [definitionsOfAll_eq, definitionsOfAll_eq]
  exact List.flatMap_congr fun d _ => h.definitionsOf.2 d

theorem bodyBoxes : bodyBoxes c' = bodyBoxes c := by
  funext d
  unfold Sizing.bodyBoxes
  split
  · rfl
  · exact h.boxesIn _

/-! ## Constants and delays -/

theorem constant? : c'.resolution.constant? = c.resolution.constant? :=
  funext fun b => (Resolution.alike_of_symbol?_eq h.symbol).constant?
    (((Node.box b).alike_self fun _ _ => trivial).1 b rfl)

theorem contains : Delay.Contains c'.resolution = Delay.Contains c.resolution :=
  funext fun b => propext (Delay.contains_alike_iff (Resolution.alike_of_symbol?_eq h.symbol)
    (((Node.box b).alike_self fun _ _ => trivial).1 b rfl))

/-! ## Rules -/

theorem isParameter (b : Box) : isParameter c' b = isParameter c b := by
  cases b with
  | ref mark name => rw [Sizing.isParameter, Sizing.isParameter, h.symbol]
  | call | number | string | compose | block => rfl

theorem compositionRule (mark : Mark) (op : Operator) (right : Box) (a b : Option Dimension) :
    compositionRule c' mark op right a b = compositionRule c mark op right a b := by
  unfold Sizing.compositionRule
  rw [h.isParameter, h.contains]

theorem iterationRule (mark : Mark) (name : String) (count : Box) (body : Option Dimension) :
    Sizing.iterationRule c' mark name count body = Sizing.iterationRule c mark name count body := by
  simp only [Sizing.iterationRule, copies?, h.constant?]

theorem referenceRule (definitions : Definition → Option (Option Dimension)) (mark : Mark) :
    Sizing.referenceRule c' definitions mark = Sizing.referenceRule c definitions mark := by
  simp only [Sizing.referenceRule, h.symbol]

theorem ordinaryRule : Sizing.ordinaryRule c' = Sizing.ordinaryRule c := by
  funext definitions mark name dims
  simp only [Sizing.ordinaryRule, h.referenceRule]

theorem rule : rule c' = rule c := by
  funext boxes definitions b
  unfold Sizing.rule
  split
  · rfl
  · cases b with
    | number | string | block => rfl
    | ref mark name =>
      dsimp only
      rw [h.referenceRule]
    | compose mark op left right => simp only [h.compositionRule]
    | call mark name args =>
      simp only [h.symbol, h.iterationParts?, uiRule, h.primitives, h.ordinaryRule,
        funext (h.iterationRule mark name _)]

theorem evaluate : evaluate c' = evaluate c := by
  funext depth
  induction depth with
  | zero => rfl
  | succ depth ih =>
    funext b
    rw [Sizing.evaluate, Sizing.evaluate, ih, h.rule]

theorem outcome : outcome c' = outcome c := by
  funext b
  unfold Sizing.outcome
  rw [h.evaluate]

theorem value : value c' = value c := by
  funext b
  rw [Sizing.value, Sizing.value, h.outcome]

/-! ## Groundedness -/

theorem demands {e : Definition} : Demands c' dim? b e ↔ Demands c dim? b e := by
  cases b with
  | ref | call => simp only [Demands, Resolution.userDefinition?, h.symbol]
  | number | string | compose | block => exact Iff.rfl

theorem relies : Relies c' = Relies c := by
  funext e d
  simp only [Relies, h.bodyBoxes, h.value, h.demands]

theorem halts : Halts c' dim? b ↔ Halts c dim? b := by
  cases b with
  | call mark name args =>
    simp only [Halts, h.symbol, h.iterationParts?, IterationHalts, h.constant?, UiHalts,
      h.primitives]
  | ref | number | string | compose | block => exact Iff.rfl

theorem grounded {D D' : List Definition} (hsub : D' ⊆ D) (hground : Grounded c D) : Grounded c' D' := by
  constructor
  · intro d hd
    rw [h.relies]
    exact hground.accessible d (hsub hd)
  · intro d hd b hb
    rw [h.bodyBoxes] at hb
    rw [h.halts, h.value]
    exact hground.sound d (hsub hd) b hb

end Agrees

/-! ## Reordered programs -/

section

variable {p q : Program} {c c' : Context}

theorem Agrees.perm_sizedDefinitions (h : Agrees c c') (hpq : p.Reordered q) :
    (sizedDefinitions c' q).Perm (sizedDefinitions c p) := by
  rw [sizedDefinitions, h.definitionsOfAll, sizedDefinitions, definitionsOfAll_eq, definitionsOfAll_eq]
  exact hpq.definitions.flatMap_right _

theorem Agrees.perm_sizedBoxes (h : Agrees c c') (hpq : p.Reordered q) :
    (sizedBoxes c' q).Perm (sizedBoxes c p) := by
  rw [sizedBoxes, h.bodyBoxes]
  exact (h.perm_sizedDefinitions hpq).flatMap_right _

end

/-- The sizing of a program that meets no cycle and is not stopped does not depend on the order of definitions. -/
theorem sizeProgram_reordered (primitives : Primitives) (available : Libraries) {p q : Program} (h : p.Reordered q)
    (hnames : (p.definitions.map (·.name)).Nodup) (hids : (p.nodes.map (·.mark.id)).Nodup)
    (hwhole : ∀ n ∈ p.nodes, n.Whole) {s t : State}
    (hs : s = sizeProgram (programSizing primitives available p) p)
    (ht : t = sizeProgram (programSizing primitives available q) q) (hcycle : NoCycle s.findings)
    (hfault : s.fault = none) :
    NoCycle t.findings ∧ t.fault = none ∧ (∀ id, t.dims.get? id = s.dims.get? id) ∧ t.findings.Perm s.findings := by
  have hagrees : Agrees (programSizing primitives available p) (programSizing primitives available q) :=
    ⟨Lexical.symbol?_reordered h hnames primitives available hids, rfl⟩
  have hdefinitions := hagrees.perm_sizedDefinitions h
  have hids' := h.nodup_ids hids
  subst hs ht
  -- Whether definitions are grounded does not depend on their order.
  have hground := (grounded_iff primitives available hids _ rfl
    fun d hd b hb => valid_of_mem_bodyBoxes hwhole hd hb).mpr ⟨hcycle, hfault⟩
  obtain ⟨hcycle', hfault'⟩ := (grounded_iff primitives available hids' _ rfl (by
    intro d hd b hb
    rw [hagrees.bodyBoxes] at hb
    exact valid_of_mem_bodyBoxes hwhole (hdefinitions.mem_iff.mp hd) hb)).mp
      (hagrees.grounded hdefinitions.subset hground)
  refine ⟨hcycle', hfault', ?_⟩
  -- At a depth that is great enough for both, the recursion gives what was found in both.
  have hboxes := hagrees.perm_sizedBoxes h
  obtain ⟨n, hn⟩ := sizeProgram_evaluate primitives available hids _ rfl hcycle hfault
  obtain ⟨m, hm⟩ := sizeProgram_evaluate primitives available hids' _ rfl hcycle' hfault'
  obtain ⟨hbox, hdefinition, hother, hfindings⟩ := hn (max n m) (Nat.le_max_left n m)
  obtain ⟨hbox', hdefinition', hother', hfindings'⟩ := hm (max n m) (Nat.le_max_right n m)
  unfold evaluateDefinition evaluateDim at hdefinition'
  unfold evaluateDim at hbox'
  unfold emitted at hfindings'
  rw [hagrees.evaluate] at hbox' hdefinition' hfindings'
  constructor
  · intro id
    by_cases hid : id ∈ (sizedBoxes (programSizing primitives available p) p).map Box.id
    · obtain ⟨b, hb, rfl⟩ := List.mem_map.mp hid
      exact Option.some.inj ((hbox' b (hboxes.mem_iff.mpr hb)).symm.trans (hbox b hb))
    · by_cases hid' : id ∈ (sizedDefinitions (programSizing primitives available p) p).map (·.id)
      · obtain ⟨d, hd, rfl⟩ := List.mem_map.mp hid'
        exact Option.some.inj ((hdefinition' d (hdefinitions.mem_iff.mpr hd)).symm.trans (hdefinition d hd))
      · -- Nothing was entered under any other number.
        rw [hother id hid hid', hother' id (fun hmem => hid ((hboxes.map _).mem_iff.mp hmem))
          fun hmem => hid' ((hdefinitions.map _).mem_iff.mp hmem)]
  · exact hfindings'.trans ((hboxes.flatMap_right _).trans hfindings.symm)

end Patchbay.Sizing
