import Patchbay.Proofs.Scope.Extension
import Patchbay.Proofs.Scope.Order
import Patchbay.Proofs.Sizing.Lockstep
import Patchbay.Proofs.Sizing.Once

/-!
# Sizing does not see a definition that nobody names

A program is extended by a definition at its end, as before. Its nodes are bound to the same symbols, and what they are
bound to is in the program. So if only the nodes of the program are viewed then its definitions are alike themselves,
and the machine sizes them as it did without the new one.

The new definition comes last. When its turn comes all definitions of the program are done, so the machine opens only
definitions that are inside the new one. It enters dimensions for nodes of the new definition, and reports at their
places.
-/

open List

namespace Patchbay

open Lexical

/-! ## Nodes -/

variable {b : Box} {n : Node} {e : Definition}

namespace Program

variable {p : Program} {d : Definition}

/-- The nodes of an extended program are those of the program, apart from the program itself, and those of the new
definition. -/
theorem nodes_extended (p : Program) (d : Definition) :
    (p.extended d).nodes = .program (p.extended d) :: (p.nodes.tail ++ d.nodes) := by
  have hlast : Definition.nodesAll (p.extended d).definitions = Definition.nodesAll p.definitions ++ d.nodes := by
    rw [Definition.nodesAll_eq, Definition.nodesAll_eq, ← flatMap_singleton Definition.nodes d]
    exact flatMap_append
  rewrite [Program.nodes, Program.nodes, hlast, tail_cons, List.append_assoc _ _ d.nodes]
  rfl

theorem ids_extended (p : Program) (d : Definition) :
    (p.extended d).nodes.map (·.mark.id) = p.nodes.map (·.mark.id) ++ d.nodes.map (·.mark.id) := by
  have hp : p.nodes = .program p :: p.nodes.tail := rfl
  rw [nodes_extended, hp, map_cons, map_append, map_cons, tail_cons]
  rfl

/-- Nodes of the new definition have numbers that no node of the program has. -/
theorem id_ne_of_extended (hids : ((p.extended d).nodes.map (·.mark.id)).Nodup) {m : Node} (hm : m ∈ d.nodes)
    (hn : n ∈ p.nodes) : m.mark.id ≠ n.mark.id := by
  rw [ids_extended] at hids
  intro heq
  exact (List.nodup_append.mp hids).2.2 _ (mem_map_of_mem hn) _ (mem_map_of_mem hm) heq.symm

theorem nodup_ids_of_extended (hids : ((p.extended d).nodes.map (·.mark.id)).Nodup) :
    (p.nodes.map (·.mark.id)).Nodup := by
  rw [ids_extended] at hids
  exact (List.nodup_append.mp hids).1

end Program

namespace Sizing

variable {nodes : List Node} {c : Context} {s s' s'' : State} {p : Program} {d : Definition}

/-! ## Sizing inside some nodes -/

/-- From one state to another, dimensions are entered only for some nodes, findings are added only at their places, and
what is done stays done. -/
structure Confined (nodes : List Node) (s s' : State) : Prop where
  dims : ∀ id, (∀ n ∈ nodes, n.mark.id ≠ id) → s'.dims.get? id = s.dims.get? id
  findings : ∃ new, s'.findings = s.findings ++ new ∧ ∀ f ∈ new, ∃ n ∈ nodes, n.mark.position = f.position
  done : s.done ⊆ s'.done

namespace Confined

theorem ofFrames (nodes : List Node) (s : State) (frames : List Frame) : Confined nodes s { s with frames } := by
  refine ⟨fun _ _ => rfl, ⟨[], (append_nil _).symm, ?_⟩, List.Subset.refl _⟩
  exact fun f hf => absurd hf not_mem_nil

theorem refl (nodes : List Node) (s : State) : Confined nodes s s := ofFrames nodes s s.frames

theorem trans (h : Confined nodes s s') (h' : Confined nodes s' s'') : Confined nodes s s'' := by
  rcases h.findings with ⟨new, hnew, hplaces⟩
  rcases h'.findings with ⟨new', hnew', hplaces'⟩
  refine ⟨?_, ⟨new ++ new', ?_, ?_⟩, List.Subset.trans h.done h'.done⟩
  · intro id hid
    rw [h'.dims id hid, h.dims id hid]
  · rw [hnew', hnew, List.append_assoc]
  · intro f hf
    rcases mem_append.mp hf with hf | hf
    · exact hplaces f hf
    · exact hplaces' f hf

theorem openDefinition (nodes : List Node) (s : State) (d : Definition) : Confined nodes s (s.openDefinition d) := by
  unfold State.openDefinition
  split
  · refine ⟨fun _ _ => rfl, ⟨[], (append_nil _).symm, ?_⟩, subset_cons_self _ _⟩
    exact fun f hf => absurd hf not_mem_nil
  · exact ofFrames nodes s _

theorem closeDefinition (hd : Node.definition d ∈ nodes) (s : State) : Confined nodes s (s.closeDefinition d) := by
  rcases Course.frames_closeDefinition s d with ⟨-, hdone, hfindings, -, -⟩
  refine ⟨?_, ⟨[], ?_, ?_⟩, ?_⟩
  · intro id hid
    rw [dims_closeDefinition]
    cases d.body.bind s.dim? with
    | none => rfl
    | some body =>
      have hne : d.id ≠ id := hid _ hd
      exact Table.get?_insert_of_ne _ hne.symm _
  · rw [hfindings, append_nil]
  · exact fun f hf => absurd hf not_mem_nil
  · rw [hdone]
    exact subset_cons_self _ _

/-- Findings about a box are at its place or at that of a local definition. -/
theorem sizeBox (hparts : PartsIn nodes) (hb : Node.box b ∈ nodes) (c : Context) (s : State) :
    Confined nodes s (Sizing.sizeBox c s b).2 := by
  have hkeeps := keeps_sizeBox c s b
  refine ⟨fun _ _ => by rw [hkeeps.dims], ?_, by rw [hkeeps.done]; exact List.Subset.refl _⟩
  rcases reports_sizeBox c s b with ⟨new, hnew, hreport⟩
  refine ⟨new, hnew, ?_⟩
  intro f hf
  generalize (Sizing.sizeBox c s b).1 = dim at hreport
  cases hreport with
  | silent => cases hf
  | mistake | feedback | cycle =>
    rw [mem_singleton.mp hf]
    exact ⟨.box b, hb, rfl⟩
  | localCycles hblock dim hlocals =>
    rcases hlocals f hf with ⟨e, he, -, rfl⟩
    subst hblock
    refine ⟨.definition e, hparts _ hb _ ?_, rfl⟩
    exact mem_cons_of_mem _ (mem_map_of_mem he)

theorem enter (hb : Node.box b ∈ nodes) (s : State) (dim : Option Dimension) : Confined nodes s (s.enter b dim) := by
  cases dim with
  | none => exact refl nodes s
  | some dim =>
    refine ⟨?_, ⟨[], (append_nil _).symm, ?_⟩, List.Subset.refl _⟩
    · intro id hid
      have hne : b.id ≠ id := hid _ hb
      exact Table.get?_insert_of_ne _ hne.symm _
    · exact fun f hf => absurd hf not_mem_nil

end Confined

/-- All definitions that are being sized are in a list of nodes, with all boxes to do in them. -/
def State.Inside (nodes : List Node) (s : State) : Prop :=
  ∀ f ∈ s.frames, Node.definition f.definition ∈ nodes ∧ ∀ e ∈ f.pending, Node.box e.1 ∈ nodes

/-- All references of some nodes lead to definitions that are done or among the nodes. -/
def Leads (c : Context) (nodes : List Node) (done : List Nat) : Prop :=
  ∀ n ∈ nodes, ∀ e, c.resolution.userDefinition? n.mark.id = some e → e.id ∈ done ∨ Node.definition e ∈ nodes

namespace State.Inside

theorem openDefinition (hs : s.Inside nodes) (hparts : PartsIn nodes) (hd : Node.definition d ∈ nodes) :
    (s.openDefinition d).Inside nodes := by
  unfold State.openDefinition
  split
  · exact hs
  · rename_i body hvalid
    refine forall_mem_cons.mpr ⟨⟨hd, ?_⟩, hs⟩
    intro e he
    rw [mem_singleton.mp he]
    exact hparts _ hd _ (by simp [Node.children, body_of_validBody? hvalid])

/-- What a box needs is inside, if its references lead to what is done or inside: the machine opens no definition that
is done. -/
theorem needed_mem (hparts : PartsIn nodes) (hleads : Leads c nodes s.done) (hb : Node.box b ∈ nodes)
    (he : nextNeeded? c s b = some e) : Node.definition e ∈ nodes := by
  obtain ⟨hneeds, hdone, -⟩ := mem_of_nextNeeded? he
  have hreferred (h : c.resolution.userDefinition? b.id = some e) : Node.definition e ∈ nodes := by
    refine (hleads _ hb e h).resolve_left fun hmem => ?_
    exact absurd ((contains_iff_mem.mpr hmem).symm.trans hdone) Bool.true_eq_false.mp
  cases b with
  | number | string | compose => cases hneeds
  | ref mark name => exact hreferred (Option.mem_toList.mp hneeds)
  | block mark body locals => exact hparts _ hb _ (mem_cons_of_mem _ (mem_map_of_mem hneeds))
  | call mark name args =>
    rw [needs] at hneeds
    split at hneeds
    · cases hneeds
    · exact hreferred (Option.mem_toList.mp hneeds)

/-- A step of a machine that is inside the nodes. -/
theorem step (hs : s.Inside nodes) (hparts : PartsIn nodes) (hleads : Leads c nodes s.done) (hframes : s.frames ≠ []) :
    Confined nodes s (Sizing.step c s) ∧ (Sizing.step c s).Inside nodes := by
  obtain ⟨a, -, ha, hstep⟩ := exists_action? c [] hframes
  obtain ⟨f, below, htop⟩ := exists_cons_of_ne_nil hframes
  have hinside := hs
  rw [State.Inside, htop, forall_mem_cons] at hinside
  obtain ⟨⟨hd, hpending⟩, hbelow⟩ := hinside
  rw [hstep]
  cases ha with
  | next hnone => exact absurd hnone hframes
  | closing hclosing =>
    obtain ⟨rfl, rfl⟩ := List.cons.inj (htop.symm.trans hclosing)
    refine ⟨.closeDefinition hd s, ?_⟩
    intro f hf
    rw [State.after, (Course.frames_closeDefinition s _).1, htop] at hf
    exact hbelow f hf
  | preparing hpreparing =>
    obtain ⟨rfl, rfl⟩ := List.cons.inj (htop.symm.trans hpreparing)
    obtain ⟨hb, hrest⟩ := forall_mem_cons.mp hpending
    rw [after_preparing c hpreparing]
    refine ⟨.ofFrames nodes s _, forall_mem_cons.mpr ⟨⟨hd, ?_⟩, hbelow⟩⟩
    intro e he
    rcases mem_append.mp he with he | he
    · obtain ⟨part, hpart, rfl⟩ := mem_map.mp he
      exact hparts _ hb _ (box_mem_children hpart)
    · rcases mem_cons.mp he with rfl | he
      · exact hb
      · exact hrest e he
  | opening hopening hneeded =>
    obtain ⟨rfl, rfl⟩ := List.cons.inj (htop.symm.trans hopening)
    have hb := (forall_mem_cons.mp hpending).1
    exact ⟨.openDefinition nodes s _, hs.openDefinition hparts (needed_mem hparts hleads hb hneeded)⟩
  | sizing hsizing =>
    obtain ⟨rfl, rfl⟩ := List.cons.inj (htop.symm.trans hsizing)
    obtain ⟨hb, hrest⟩ := forall_mem_cons.mp hpending
    rw [after_sizing c hsizing, State.Inside, (enter_eq _ _ _).1]
    exact ⟨((Confined.sizeBox hparts hb c s).trans (.ofFrames nodes _ _)).trans (.enter hb _ _),
      forall_mem_cons.mpr ⟨⟨hd, hrest⟩, hbelow⟩⟩

end State.Inside

/-- A run that starts inside some nodes never leaves them, if their references lead to what is done or inside. -/
theorem Confined.run (hparts : PartsIn nodes) (fuel : Nat) (hs : s.Inside nodes) (hleads : Leads c nodes s.done) :
    Confined nodes s (Sizing.run c fuel s) := by
  induction fuel generalizing s with
  | zero => exact refl nodes s
  | succ fuel ih =>
    rw [Sizing.run]
    split
    · exact refl nodes s
    · rename_i hgo
      obtain ⟨hstep, hinside⟩ := hs.step hparts hleads fun hframes => hgo (by simp [hframes])
      exact hstep.trans (ih hinside fun n hn e he => (hleads n hn e he).imp_left (hstep.done ·))

/-! ## Extended programs -/

/-- The nodes of a program are viewed. -/
def viewOf (p : Program) : View := ⟨id, (· ∈ p.nodes.map (·.mark.id))⟩

theorem alike_of_mem {r r' : Resolution} (he : Node.definition e ∈ p.nodes) : e.Alike (viewOf p) r r' e :=
  ((Node.definition e).alike_self fun _ hm => mem_map_of_mem (p.partsIn_nodes.nodes_definition e he hm)).2 e rfl

section Extended

variable (primitives : Primitives) (available : Libraries)

variable (hids : ((p.extended d).nodes.map (·.mark.id)).Nodup)

include hids

/-- With only the program viewed, the program and the extended program are alike. -/
theorem alike_extended (hname : ∀ n ∈ p.nodes, d.name ∉ n.spelled) :
    Alike (viewOf p) (programSizing primitives available p) (programSizing primitives available (p.extended d)) := by
  have hp := Program.nodup_ids_of_extended hids
  refine ⟨?_, rfl, coherent_resolve primitives available hp, coherent_resolve primitives available hids⟩
  intro id hid
  obtain ⟨n, hn, rfl⟩ := mem_map.mp hid
  have hsame := symbol?_extended primitives available hname fun m hm => Program.id_ne_of_extended hids hm hn
  rw [programSizing, programSizing, hsame]
  cases hs : (p.resolve primitives available).1.symbol? n.mark.id with
  | none => exact .none
  | some s =>
    refine .some ⟨rfl, rfl, rfl, ?_⟩
    cases he : s.definition with
    | none => exact .none
    | some e => exact .some (alike_of_mem (mem_nodes_of_symbol? primitives available hp hs he).2)

/-- The new definition refers to definitions of the program and to those inside it. -/
theorem referred_extended (hn : n ∈ d.nodes)
    (he : ((p.extended d).resolve primitives available).1.userDefinition? n.mark.id = some e) :
    e ∈ p.definitions ∨ Node.definition e ∈ d.nodes := by
  rcases userDefinition?_eq_some_iff.mp he with ⟨symbol, hsymbol, -, hdefinition⟩
  have hserve := serve_kept available (p.extended d)
  by_cases hid : ∃ o ∈ programOccurrences primitives (p.extended d), o.mark.id = n.mark.id
  · rcases hid with ⟨o, ho, hmark⟩
    rw [← hmark, symbol?_of_mem primitives hids hserve ho] at hsymbol
    -- The name occurs in the new definition: the program has no node of its number.
    have hlast : o ∈ definitionOccurrences (programEnv primitives (p.extended d)) d := by
      rw [programOccurrences, definitionsOccurrences_eq] at ho
      rcases mem_flatMap.mp ho with ⟨x, hx, hox⟩
      rcases mem_append.mp hx with hx | hx
      · rw [definitionOccurrences_eq_uses] at hox
        have hmem := (sublist_nodeEvents (.definition x) _).subset (mem_map_of_mem hox)
        rcases mem_map.mp hmem with ⟨m, hm, hsame⟩
        have hp : m ∈ p.nodes := p.partsIn_nodes.nodes_definition x (p.mem_nodes_of_definition hx) hm
        exact absurd (hmark.symm.trans hsame.symm) (Program.id_ne_of_extended hids hn hp)
      · rw [mem_singleton.mp hx] at hox
        exact hox
    have henv : Lexical.EnvIn (fun e => e ∈ p.definitions ∨ Node.definition e ∈ d.nodes)
        (programEnv primitives (p.extended d)) := by
      refine envIn_programEnv primitives _ ?_
      intro x hx
      rcases mem_append.mp hx with hx | hx
      · exact .inl hx
      · rw [mem_singleton.mp hx]
        exact .inr d.mem_nodes
    have huses := envIn_uses (.definition d) _ henv (fun _ hx => .inr hx) o
      (definitionOccurrences_eq_uses d ▸ hlast)
    exact (definition_of_meaning? huses hsymbol hdefinition).2
  · have hnone := symbol?_of_not_mem primitives available (p.extended d) fun o ho heq => hid ⟨o, ho, heq⟩
    exact absurd (hnone.symm.trans hsymbol) (by simp)

variable (hname : ∀ n ∈ p.nodes, d.name ∉ n.spelled)

include hname

/-- The extended program is sized as the program is, and then with the new definition. -/
theorem sizeProgram_extended :
    ∃ s, (sizeProgram (programSizing primitives available p) p).Alike (viewOf p) (programSizing primitives available p)
        (programSizing primitives available (p.extended d)) s
      ∧ sizeProgram (programSizing primitives available (p.extended d)) (p.extended d)
        = sizeDefinition (programSizing primitives available (p.extended d)) (fuelFor (p.extended d)) s d := by
  have hfuel : fuelFor p ≤ fuelFor (p.extended d) := by
    have hlength := congrArg List.length (Program.ids_extended p d)
    simp only [length_map, length_append] at hlength
    unfold fuelFor
    omega
  have hdefinitions : Forall₂ (Definition.Alike (viewOf p) (p.resolve primitives available).1
      ((p.extended d).resolve primitives available).1) p.definitions p.definitions :=
    forall₂_same.mpr fun e he => alike_of_mem (p.mem_nodes_of_definition he)
  have hsame := (alike_extended primitives available hids hname).sizeDefinitions (.start _ _ _) hdefinitions
    (fuelFor (p.extended d))
  rw [(sizedOnce primitives available (Program.nodup_ids_of_extended hids) rfl).fueled _ hfuel] at hsame
  refine ⟨_, hsame, ?_⟩
  rw [sizeProgram, show (p.extended d).definitions = p.definitions ++ [d] from rfl, foldl_append]
  rfl

/-- The new definition adds dimensions for its own nodes only, and findings at their places. -/
theorem confined_sizeProgram : Confined d.nodes (sizeProgram (programSizing primitives available p) p)
      (sizeProgram (programSizing primitives available (p.extended d)) (p.extended d)) := by
  obtain ⟨s, hs, hextended⟩ := sizeProgram_extended primitives available hids hname
  have hfindings := hs.findings
  rw [viewOf, Finding.mapNames_id, map_id, map_id] at hfindings
  have hsame : Confined d.nodes (sizeProgram (programSizing primitives available p) p) s := by
    refine ⟨fun _ _ => by rw [hs.dims], ⟨[], by rw [hfindings, append_nil], ?_⟩, hs.done ▸ List.Subset.refl _⟩
    exact fun f hf => absurd hf not_mem_nil
  rw [hextended, sizeDefinition]
  split
  · exact hsame
  · rename_i hgo
    rw [Bool.or_eq_true, not_or] at hgo
    have hfault : (sizeProgram (programSizing primitives available p) p).fault = none := by
      rw [← hs.fault]
      simpa using hgo.2
    obtain ⟨hframes, -, hdone⟩ :=
      (sizeProgram_ends primitives available (Program.nodup_ids_of_extended hids) _ rfl).2 hfault
    have hinside : s.Inside d.nodes := by
      have hframes' := hs.frames
      rw [hframes, forall₂_nil_left_iff] at hframes'
      intro f hf
      rw [hframes'] at hf
      cases hf
    have hopened := hsame.trans (.openDefinition d.nodes s d)
    refine hopened.trans (.run d.partsIn_nodes _ (hinside.openDefinition d.partsIn_nodes d.mem_nodes) ?_)
    intro n hn e he
    rcases referred_extended primitives available hids hn he with hmem | hmem
    · exact .inl (hopened.done (contains_iff_mem.mp (hdone e hmem)))
    · exact .inr hmem

/-- If the extended program is sized without a fault then so is the program. -/
theorem fault_of_extended
    (hfault : (sizeProgram (programSizing primitives available (p.extended d)) (p.extended d)).fault = none) :
    (sizeProgram (programSizing primitives available p) p).fault = none := by
  obtain ⟨s, hs, hextended⟩ := sizeProgram_extended primitives available hids hname
  rw [hextended, sizeDefinition] at hfault
  rw [← hs.fault]
  split at hfault
  · exact hfault
  · rename_i hgo
    rw [Bool.or_eq_true, not_or] at hgo
    simpa using hgo.2

end Extended

end Sizing

end Patchbay
