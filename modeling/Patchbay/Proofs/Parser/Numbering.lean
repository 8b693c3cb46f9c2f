import Mathlib.Data.List.Flatten
import Mathlib.Tactic.Choose
import Patchbay.Proofs.Parser.Flags

/-!
# Numbers identify nodes

The nodes of a program are listed in the order of their addresses, each once. When a program is read, every node is
given a number of its own, also those that could not be read and those that stand for other notation.
-/

open List

namespace Patchbay

/-- The nodes below a node are those at its addresses. They are listed in the order of the addresses: a node comes
before its parts, and each part with all below it before the next part. -/
theorem Node.exists_addresses (n : Node) : ∃ addresses : List (List Nat), addresses.Pairwise (· < ·)
    ∧ (∀ address, address ∈ addresses ↔ (n.at? address).isSome)
    ∧ n.nodes.map some = addresses.map n.at? := by
  induction n using Node.induct with
  | h n ih =>
    choose! below hsorted hbelow hnodes using ih
    refine ⟨[] :: n.children.zipIdx.flatMap fun part => (below part.1).map (part.2 :: ·),
      pairwise_cons.mpr ⟨?_, pairwise_flatMap.mpr ⟨?_, ?_⟩⟩, ?_, ?_⟩
    · intro address haddress
      obtain ⟨part, -, hmem⟩ := mem_flatMap.mp haddress
      obtain ⟨rest, -, rfl⟩ := mem_map.mp hmem
      exact nil_lt_cons _ _
    · intro part hpart
      refine pairwise_map.mpr ((hsorted part.1 (fst_mem_of_mem_zipIdx hpart)).imp ?_)
      intro a b hlt
      exact cons_lt_cons_iff.mpr (.inr ⟨rfl, hlt⟩)
    · have hnumbers : n.children.zipIdx.Pairwise fun part part' => part.2 < part'.2 := by
        refine pairwise_map.mp ?_
        rw [zipIdx_map_snd]
        exact pairwise_lt_range'
      refine hnumbers.imp ?_
      intro part part' hlt a ha b hb
      obtain ⟨_, -, rfl⟩ := mem_map.mp ha
      obtain ⟨_, -, rfl⟩ := mem_map.mp hb
      exact cons_lt_cons_iff.mpr (.inl hlt)
    · intro address
      cases address with
      | nil => simp [at?]
      | cons i rest =>
        cases hm : n.children[i]? with
        | none => simp [at?, hm, mk_mem_zipIdx_iff_getElem?]
        | some m => simp [at?, hm, mk_mem_zipIdx_iff_getElem?, hbelow m (mem_of_getElem? hm)]
    · rw [n.nodes_eq, map_cons, map_cons, map_flatMap, map_flatMap, at?]
      have hpart : ∀ part ∈ n.children.zipIdx,
          ((below part.1).map (part.2 :: ·)).map n.at? = part.1.nodes.map some := by
        intro part hpart
        have hm : n.children[part.2]? = some part.1 := mk_mem_zipIdx_iff_getElem?.mp hpart
        simp [hnodes part.1 (mem_of_getElem? hm), at?, hm]
      rw [flatMap_congr hpart]
      nth_rewrite 1 [← zipIdx_map_fst 0 n.children]
      rw [flatMap_map]

/-- Tokens whose numbers have values are read as a program. Its root has number zero and all other nodes have different
numbers above it. Going through the nodes yields the node at each address once, in the order of the addresses: each node
before its parts, and the parts one after another. -/
theorem Program.parse_numbers_nodes (tokens : List Token) (maxDepth : Int)
    (hnumbers : ∀ t ∈ tokens, t.kind = .number → (Number.ofNumeral? t.text.toList).isSome = true) :
    ∃ p findings, Program.parse tokens maxDepth = .ok (p, findings)
      ∧ (∃ inner, p.nodes = .program p :: inner ∧ (∀ n ∈ inner, 0 < n.mark.id) ∧ (inner.map (·.mark.id)).Nodup)
      ∧ (Node.program p).mark.id = 0
      ∧ ∃ addresses : List (List Nat), addresses.Pairwise (· < ·)
        ∧ (∀ address, address ∈ addresses ↔ ((Node.program p).at? address).isSome = true)
        ∧ p.nodes.map some = addresses.map (Node.program p).at? := by
  have hparse := Program.parse_eq_ok maxDepth hnumbers
  have hgrown := (Program.made_of_parse hparse).grown
  exact ⟨_, _, hparse, ⟨_, rfl, fun n hn => (hgrown.numbered n hn).1, hgrown.distinct⟩, rfl,
    (Node.program _).exists_addresses⟩

theorem Program.parse_numbers_nodes_bodiless :
    (∀ t ∈ bodilessTokens, t.kind = .number → (Number.ofNumeral? t.text.toList).isSome = true)
    ∧ ∃ p findings, Program.parse bodilessTokens 5 = .ok (p, findings)
      ∧ ∃ inner, p.nodes = .program p :: inner ∧ (inner.map (·.mark.id)).Nodup := by
  have h : ∀ t ∈ bodilessTokens, t.kind = .number → (Number.ofNumeral? t.text.toList).isSome = true := by
    decide +kernel
  obtain ⟨p, findings, hparse, ⟨inner, hinner, -, hnodup⟩, -⟩ := Program.parse_numbers_nodes bodilessTokens 5 h
  exact ⟨h, p, findings, hparse, inner, hinner, hnodup⟩

end Patchbay
