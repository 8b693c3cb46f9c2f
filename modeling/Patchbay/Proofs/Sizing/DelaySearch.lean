import Patchbay.Proofs.Scope.Imports
import Patchbay.Sizing.Delay

/-!
# The search for delays

A box contains a delay when a name or call of something that delays can be reached from it: through the boxes inside,
and through the bodies of the definitions that names refer to. `scan` finds out whether it does. It follows each
definition once and leaves out those that were searched before; the definitions it remembers contain no delay.
-/

open List

namespace Patchbay.Delay

variable {r : Resolution} {free visited : List Nat}

/-! ## Reach -/

/-- One box leads to another: to a box inside, or to the body of the definition that it refers to. -/
inductive Leads (r : Resolution) : Box → Box → Prop where
  | part {b x : Box} (h : x ∈ b.parts) : Leads r b x
  | follow {b body : Box} {d : Definition} (hd : referred? r b = some d) (hbody : d.body = some body) :
    Leads r b body

/-- One box is within reach of another. -/
inductive Reaches (r : Resolution) : Box → Box → Prop where
  | refl (b : Box) : Reaches r b b
  | step {b x y : Box} (h : Leads r b x) (hrest : Reaches r x y) : Reaches r b y

/-- A box contains a delay: something that delays is within its reach. -/
def Contains (r : Resolution) (b : Box) : Prop := ∃ x, Reaches r b x ∧ isDelay r x = true

variable {b body : Box} {d : Definition}

theorem Contains.of_leads {x : Box} (h : Leads r b x) (hx : Contains r x) : Contains r b := by
  rcases hx with ⟨y, hy, hdelay⟩
  exact ⟨y, .step h hy, hdelay⟩

/-- The definitions that names refer to are known by their numbers. -/
def Coherent (r : Resolution) : Prop :=
  ∀ i j d e, r.userDefinition? i = some d → r.userDefinition? j = some e → d.id = e.id → d = e

/-- The definitions with these numbers contain no delay. -/
def Free (r : Resolution) (free : List Nat) : Prop :=
  ∀ i d body, r.userDefinition? i = some d → d.body = some body → d.id ∈ free → ¬ Contains r body

theorem exists_of_referred? (h : referred? r b = some d) : ∃ i, r.userDefinition? i = some d := by
  unfold referred? at h
  split at h
  · rename_i i _
    exact ⟨i, h⟩
  · simp at h

/-! ## Following a name -/

/-- The bodies that a name leads to are those it refers to, and their definitions were neither visited nor free. -/
theorem follow_cases (r : Resolution) (free visited : List Nat) (b : Box) :
    (follow r free visited b = (visited, [])
      ∧ ∀ d body, referred? r b = some d → d.body = some body → d.id ∈ visited ∨ d.id ∈ free)
    ∨ ∃ d body, referred? r b = some d ∧ d.body = some body ∧ d.id ∉ visited ∧ d.id ∉ free
      ∧ follow r free visited b = (d.id :: visited, [body]) := by
  unfold follow
  cases hd : referred? r b with
  | none =>
    left
    exact ⟨rfl, fun d body h => absurd h (by simp)⟩
  | some d =>
    cases hbody : d.body with
    | none =>
      left
      refine ⟨by simp only [hbody], ?_⟩
      intro e body he hebody
      obtain rfl := Option.some.inj he
      exact absurd (hbody.symm.trans hebody) (by simp)
    | some body =>
      cases hknown : visited.contains d.id || free.contains d.id with
      | true =>
        left
        refine ⟨by simp only [hbody, hknown, if_true], ?_⟩
        intro e _ he _
        obtain rfl := Option.some.inj he
        simpa using hknown
      | false =>
        right
        have hnot : d.id ∉ visited ∧ d.id ∉ free := by simpa using hknown
        exact ⟨d, body, rfl, hbody, hnot.1, hnot.2, by simp [hbody, hnot]⟩

/-! ## Weights

A step of the search takes one node of the pending boxes. The body of a definition is added when the definition is
visited, and then it does not count among those not yet visited. -/

/-- The nodes of the definition of a symbol, unless it was visited. -/
def symbolWeight (visited : List Nat) (s : Symbol) : Nat :=
  match s.definition with
  | some d => if d.id ∈ visited then 0 else d.nodeCount
  | none => 0

/-- The nodes of the definitions of symbols that were not visited, each counted for every symbol. -/
def symbolsWeight (visited : List Nat) (symbols : List Symbol) : Nat :=
  symbols.foldr (fun s n => symbolWeight visited s + n) 0

theorem symbolsWeight_cons (visited : List Nat) (s : Symbol) (symbols : List Symbol) :
    symbolsWeight visited (s :: symbols) = symbolWeight visited s + symbolsWeight visited symbols := rfl

/-- The nodes of the definitions not yet visited, each counted for every name. -/
def referredWeight (r : Resolution) (visited : List Nat) : Nat := symbolsWeight visited r.bindings.values

theorem referredWeight_nil (r : Resolution) : referredWeight r [] = referredNodes r := by
  unfold referredWeight referredNodes symbolsWeight
  congr 1
  funext s n
  unfold symbolWeight
  cases s.definition <;> simp

theorem nodeCounts_append (as bs : List Box) :
    Box.nodeCounts (as ++ bs) = Box.nodeCounts as + Box.nodeCounts bs := by
  induction as with
  | nil => simp [Box.nodeCounts]
  | cons a rest ih =>
    rw [cons_append, Box.nodeCounts, ih, Box.nodeCounts, Nat.add_assoc]

theorem body_lt_nodeCount (h : d.body = some body) : body.nodeCount < d.nodeCount := by
  obtain ⟨mark, name, params, _, stop⟩ := d
  obtain rfl : _ = some body := h
  rw [Definition.nodeCount]
  omega

theorem bodies_le_nodeCounts (ds : List Definition) :
    Box.nodeCounts (ds.filterMap (·.body)) ≤ Definition.nodeCounts ds := by
  induction ds with
  | nil => exact Nat.le_refl 0
  | cons d rest ih =>
    rw [Definition.nodeCounts, filterMap_cons]
    cases hbody : d.body with
    | none =>
      dsimp only
      omega
    | some body =>
      have hlt := body_lt_nodeCount hbody
      rw [Box.nodeCounts]
      omega

theorem nodeCount_pos (b : Box) : 0 < b.nodeCount := by
  cases b <;> rw [Box.nodeCount] <;> omega

/-- The parts of a box weigh less than the box. -/
theorem parts_lt_nodeCount (b : Box) : Box.nodeCounts b.parts < b.nodeCount := by
  cases b with
  | ref mark name => exact nodeCount_pos _
  | number mark value text => exact nodeCount_pos _
  | string mark value => exact nodeCount_pos _
  | call mark name args =>
    rw [Box.parts, Box.nodeCount]
    omega
  | compose mark op left right =>
    rw [Box.parts, Box.nodeCount, Box.nodeCounts, Box.nodeCounts, Box.nodeCounts]
    omega
  | block mark body locals =>
    have hlocals := bodies_le_nodeCounts locals
    rw [Box.parts, Box.nodeCount, Box.nodeCounts]
    omega

theorem symbolWeight_visit_le (visited : List Nat) (id : Nat) (s : Symbol) :
    symbolWeight (id :: visited) s ≤ symbolWeight visited s := by
  unfold symbolWeight
  cases s.definition with
  | none => exact Nat.le_refl 0
  | some d =>
    by_cases h : d.id ∈ visited
    · simp [h]
    · by_cases hid : d.id = id
      · simp [hid]
      · simp [h, hid]

theorem symbolsWeight_visit_le (visited : List Nat) (id : Nat) (symbols : List Symbol) :
    symbolsWeight (id :: visited) symbols ≤ symbolsWeight visited symbols := by
  induction symbols with
  | nil => exact Nat.le_refl 0
  | cons first rest ih =>
    have hle := symbolWeight_visit_le visited id first
    rw [symbolsWeight_cons, symbolsWeight_cons]
    omega

/-- A visit takes at least the nodes of the definition from those not yet visited. -/
theorem symbolsWeight_visit (hd : d.id ∉ visited) (symbols : List Symbol) (h : ∃ s ∈ symbols, s.definition = some d) :
    symbolsWeight (d.id :: visited) symbols + d.nodeCount ≤ symbolsWeight visited symbols := by
  induction symbols with
  | nil =>
    rcases h with ⟨s, hs, _⟩
    cases hs
  | cons first rest ih =>
    have hle := symbolWeight_visit_le visited d.id first
    rw [symbolsWeight_cons, symbolsWeight_cons]
    rcases h with ⟨s, hs, hsd⟩
    rcases mem_cons.mp hs with rfl | hs
    · have hnow : symbolWeight (d.id :: visited) s = 0 := by simp [symbolWeight, hsd]
      have hbefore : symbolWeight visited s = d.nodeCount := by simp [symbolWeight, hsd, hd]
      have hrest := symbolsWeight_visit_le visited d.id rest
      omega
    · have hrest := ih ⟨s, hs, hsd⟩
      omega

theorem exists_symbol_of_referred? (h : referred? r b = some d) : ∃ s ∈ r.bindings.values, s.definition = some d := by
  obtain ⟨i, hi⟩ := exists_of_referred? h
  unfold Resolution.userDefinition? at hi
  split at hi
  · rename_i symbol hsymbol
    split at hi
    · have hmem : (i, symbol) ∈ r.bindings.entries := Table.mem_of_find? hsymbol
      exact ⟨symbol, mem_map_of_mem hmem, hi⟩
    · simp at hi
  · simp at hi

/-- Following a name adds no weight: a body that is added was counted among the definitions not yet visited. -/
theorem follow_weight (r : Resolution) (free visited : List Nat) (b : Box) :
    Box.nodeCounts (follow r free visited b).2 + referredWeight r (follow r free visited b).1
      ≤ referredWeight r visited := by
  rcases follow_cases r free visited b with
    ⟨hfollow, _⟩ | ⟨d, body, hd, hbody, hnot, _, hfollow⟩
  · rw [hfollow]
    simp [Box.nodeCounts]
  · have hlt := body_lt_nodeCount hbody
    have hsum := symbolsWeight_visit hnot r.bindings.values (exists_symbol_of_referred? hd)
    rw [hfollow, referredWeight, referredWeight, Box.nodeCounts, Box.nodeCounts]
    dsimp only
    omega

/-- A step of the search takes weight. -/
theorem step_weight (r : Resolution) (free visited : List Nat) (b : Box) (pending : List Box) :
    Box.nodeCounts ((follow r free visited b).2 ++ b.parts ++ pending)
        + referredWeight r (follow r free visited b).1
      < Box.nodeCounts (b :: pending) + referredWeight r visited := by
  have hfollow := follow_weight r free visited b
  have hparts := parts_lt_nodeCount b
  rw [nodeCounts_append, nodeCounts_append, Box.nodeCounts]
  omega

/-! ## What the search finds -/

theorem search_cons (fuel : Nat) (b : Box) (pending : List Box) (h : isDelay r b = false) :
    search r free (fuel + 1) (b :: pending) visited
      = search r free fuel ((follow r free visited b).2 ++ b.parts ++ pending)
          (follow r free visited b).1 := by
  rw [search, h]
  rfl

/-- A delay that is found is within reach. -/
theorem contains_of_search (fuel : Nat) (pending : List Box) (visited : List Nat)
    (h : (search r free fuel pending visited).1) : ∃ b ∈ pending, Contains r b := by
  induction fuel generalizing pending visited with
  | zero => exact absurd h Bool.false_ne_true
  | succ fuel ih =>
    cases pending with
    | nil => exact absurd h Bool.false_ne_true
    | cons b pending =>
      cases hdelay : isDelay r b with
      | true => exact ⟨b, mem_cons_self, b, .refl b, hdelay⟩
      | false =>
        rw [search_cons fuel b pending hdelay] at h
        obtain ⟨x, hx, hcontains⟩ := ih _ _ h
        rcases mem_append.mp hx with hx | hx
        · have hleads : Leads r b x := by
            rcases mem_append.mp hx with hx | hx
            · rcases follow_cases r free visited b with
                ⟨hfollow, _⟩ | ⟨d, body, hd, hbody, _, _, hfollow⟩
              · rw [hfollow] at hx
                cases hx
              · rw [hfollow] at hx
                rw [mem_singleton.mp hx]
                exact .follow hd hbody
            · exact .part hx
          exact ⟨b, mem_cons_self, hcontains.of_leads hleads⟩
        · exact ⟨x, mem_cons_of_mem _ hx, hcontains⟩

/-- Boxes that were searched without finding a delay. What they lead to was searched too, apart from the bodies of
definitions visited before or free of delays. -/
structure Swept (r : Resolution) (free visited : List Nat) (P : Box → Prop) : Prop where
  clean : ∀ b, P b → isDelay r b = false
  parts : ∀ b, P b → ∀ x ∈ b.parts, P x
  follow : ∀ b d body, P b → referred? r b = some d → d.body = some body →
    P body ∨ d.id ∈ visited ∨ d.id ∈ free

theorem Swept.none : Swept r free visited fun _ => False := by
  refine ⟨?_, ?_, ?_⟩
  · intro b hb
    exact hb.elim
  · intro b hb
    exact hb.elim
  · intro b d body hb
    exact hb.elim

/-- The definition that a box refers to is visited when the box is followed, unless it is free of delays. -/
theorem visited_or_free_of_referred? (hd : referred? r b = some d) (hbody : d.body = some body) :
    d.id ∈ (follow r free visited b).1 ∨ d.id ∈ free := by
  rcases follow_cases r free visited b with ⟨hfollow, hknown⟩ | ⟨e, ebody, he, hebody, _, _, hfollow⟩
  · rw [hfollow]
    exact hknown d body hd hbody
  · obtain rfl : d = e := Option.some.inj (hd.symm.trans he)
    rw [hfollow]
    exact .inl mem_cons_self

/-- A definition that is visited after a box was followed was visited before, or its body is still to be searched. -/
theorem mem_visited_of_follow {id : Nat} (h : id ∈ (follow r free visited b).1) :
    id ∈ visited ∨ ∃ i d body, r.userDefinition? i = some d ∧ d.body = some body ∧ d.id = id
      ∧ body ∈ (follow r free visited b).2 := by
  rcases follow_cases r free visited b with ⟨hfollow, _⟩ | ⟨d, body, hd, hbody, _, _, hfollow⟩
  · rw [hfollow] at h
    exact .inl h
  · rw [hfollow] at h ⊢
    rcases mem_cons.mp h with rfl | h
    · obtain ⟨i, hi⟩ := exists_of_referred? hd
      exact .inr ⟨i, d, body, hi, hbody, rfl, mem_cons_self⟩
    · exact .inl h

/-- A box is swept when what it adds to the pending boxes is. -/
theorem Swept.cons (hr : Coherent r) {P : Box → Prop} {b : Box} (h : Swept r free (Delay.follow r free visited b).1 P)
    (hdelay : isDelay r b = false) (hfollow : ∀ x ∈ (Delay.follow r free visited b).2, P x)
    (hparts : ∀ x ∈ b.parts, P x) : Swept r free visited fun x => x = b ∨ P x := by
  refine ⟨?_, ?_, ?_⟩
  · intro x hx
    rcases hx with rfl | hx
    · exact hdelay
    · exact h.clean x hx
  · intro x hx y hy
    rcases hx with rfl | hx
    · exact .inr (hparts y hy)
    · exact .inr (h.parts x hx y hy)
  · intro x d body hx hd hbody
    have hcases : P body ∨ d.id ∈ (Delay.follow r free visited b).1 ∨ d.id ∈ free := by
      rcases hx with rfl | hx
      · exact .inr (visited_or_free_of_referred? hd hbody)
      · exact h.follow x d body hx hd hbody
    rcases hcases with hP | hvisited | hfree
    · exact .inl (.inr hP)
    · -- It was visited before or just now; numbers tell definitions apart, so it is this body that is to be searched.
      rcases mem_visited_of_follow hvisited with hvisited | ⟨i, e, ebody, he, hebody, hid, hmem⟩
      · exact .inr (.inl hvisited)
      · obtain ⟨j, hj⟩ := exists_of_referred? hd
        obtain rfl : e = d := hr i j e d he hj hid
        obtain rfl : ebody = body := Option.some.inj (hebody.symm.trans hbody)
        exact .inl (.inr (hfollow ebody hmem))
    · exact .inr (.inr hfree)

/-- With fuel enough, a search that finds nothing has swept its boxes, and the bodies of the definitions it visited. -/
theorem swept_of_search (hr : Coherent r) (fuel : Nat) (pending : List Box) (visited : List Nat)
    (hfuel : Box.nodeCounts pending + referredWeight r visited < fuel)
    (h : (search r free fuel pending visited).1 = false) :
    ∃ P, Swept r free visited P ∧ (∀ b ∈ pending, P b)
      ∧ ∀ id ∈ (search r free fuel pending visited).2, id ∈ visited
        ∨ ∃ i d body, r.userDefinition? i = some d ∧ d.body = some body ∧ d.id = id ∧ P body := by
  induction fuel generalizing pending visited with
  | zero => omega
  | succ fuel ih =>
    cases pending with
    | nil => exact ⟨fun _ => False, .none, fun b hb => absurd hb not_mem_nil, fun id hid => .inl hid⟩
    | cons b pending =>
      cases hdelay : isDelay r b with
      | true =>
        rw [search, hdelay] at h
        simp at h
      | false =>
        have hweight := step_weight r free visited b pending
        rw [search_cons fuel b pending hdelay] at h ⊢
        obtain ⟨P, hswept, hpending, hvisited⟩ := ih _ _ (by omega) h
        have hfollow : ∀ x ∈ (follow r free visited b).2, P x := fun x hx => hpending x (by simp [hx])
        have hparts : ∀ x ∈ b.parts, P x := fun x hx => hpending x (by simp [hx])
        refine ⟨fun x => x = b ∨ P x, hswept.cons hr hdelay hfollow hparts, ?_, ?_⟩
        · intro x hx
          rcases mem_cons.mp hx with rfl | hx
          · exact .inl rfl
          · exact .inr (hpending x (by simp [hx]))
        · intro id hid
          rcases hvisited id hid with hid | ⟨i, d, body, hd, hbody, hid, hP⟩
          · rcases mem_visited_of_follow hid with hid | ⟨i, d, body, hd, hbody, hid, hmem⟩
            · exact .inl hid
            · exact .inr ⟨i, d, body, hd, hbody, hid, .inr (hfollow body hmem)⟩
          · exact .inr ⟨i, d, body, hd, hbody, hid, .inr hP⟩

/-- Swept boxes contain no delay if nothing was visited before. -/
theorem Swept.not_contains {P : Box → Prop} (h : Swept r free [] P) (hfree : Free r free) (hb : P b) :
    ¬ Contains r b := by
  rintro ⟨x, hreach, hdelay⟩
  induction hreach with
  | refl b =>
    rw [h.clean b hb] at hdelay
    exact absurd hdelay Bool.false_ne_true
  | step hleads hrest ih =>
    cases hleads with
    | part hx => exact ih (h.parts _ hb _ hx) hdelay
    | follow hd hbody =>
      rcases h.follow _ _ _ hb hd hbody with hP | hvisited | hid
      · exact ih hP hdelay
      · cases hvisited
      · obtain ⟨i, hi⟩ := exists_of_referred? hd
        exact hfree i _ _ hi hbody hid ⟨_, hrest, hdelay⟩

/-- The fuel of a scan is more than there is to search. -/
theorem weight_lt_fuel (r : Resolution) (n : Node) :
    Box.nodeCounts (entries n) + referredWeight r [] < Box.nodeCounts (entries n) + referredNodes r + 1 := by
  rw [referredWeight_nil]
  omega

/-- A scan of a node finds a delay exactly if a box in it contains one, and the definitions it remembers contain
none. -/
theorem scanNode_spec (hr : Coherent r) (hfree : Free r free) (n : Node) :
    ((scanNode r free n).1 ↔ ∃ b ∈ entries n, Contains r b) ∧ Free r (scanNode r free n).2 := by
  unfold scanNode
  cases hfound : (search r free (Box.nodeCounts (entries n) + referredNodes r + 1) (entries n) []).1 with
  | true =>
    have hcontains := contains_of_search _ _ _ hfound
    dsimp only
    rw [hfound]
    exact ⟨⟨fun _ => hcontains, fun _ => rfl⟩, hfree⟩
  | false =>
    obtain ⟨P, hswept, hentries, hvisited⟩ := swept_of_search hr _ _ _ (weight_lt_fuel r n) hfound
    have hnot : ¬ ∃ b ∈ entries n, Contains r b := by
      rintro ⟨b, hb, hcontains⟩
      exact hswept.not_contains hfree (hentries b hb) hcontains
    dsimp only
    rw [hfound]
    refine ⟨⟨fun h => absurd h Bool.false_ne_true, fun h => absurd h hnot⟩, ?_⟩
    intro i d body hd hbody hid
    rcases mem_append.mp hid with hid | hid
    · rcases hvisited d.id hid with hid | ⟨j, e, ebody, he, hebody, hid, hP⟩
      · cases hid
      · obtain rfl : e = d := hr j i e d he hd hid
        obtain rfl : ebody = body := Option.some.inj (hebody.symm.trans hbody)
        exact hswept.not_contains hfree hP
    · exact hfree i d body hd hbody hid

/-- A scan finds a delay exactly if the box contains one, and the definitions it remembers contain none. -/
theorem scan_spec (hr : Coherent r) (hfree : Free r free) (root : Box) :
    ((scan r free root).1 ↔ Contains r root) ∧ Free r (scan r free root).2 := by
  obtain ⟨hfound, hscanned⟩ := scanNode_spec hr hfree (.box root)
  refine ⟨hfound.trans ?_, hscanned⟩
  simp [entries]

end Patchbay.Delay
