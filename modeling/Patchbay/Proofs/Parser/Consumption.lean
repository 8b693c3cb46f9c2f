import Patchbay.Proofs.Parser.Flags
import Patchbay.Proofs.Parser.Recovery

/-!
# Reading ends and takes every token

Recovery may stop before a closing brace without taking anything, but only where a brace closes a block: the rounds of a
block end there, and outside of blocks the brace itself is taken. So every round takes a token, and the fuel for a list
of tokens never runs out.
-/

namespace Patchbay.Parser

variable {d : Int} {s t : State} {token : Token} {rest : List Token} {fuel : Nat}

/-- What is left after some token was taken is left of what follows the first one. -/
theorem State.Extends.suffix_of_less (h : s.Extends t) (hrest : s.rest = token :: rest)
    (hless : t.rest.length + 1 ≤ s.rest.length) : t.rest <:+ rest := by
  have hsuffix := h.suffix
  rw [hrest] at hsuffix hless
  rcases List.suffix_cons_iff.mp hsuffix with heq | hsuffix
  · rw [heq] at hless
    exact absurd hless (Nat.not_succ_le_self _)
  · exact hsuffix

/-- The rounds of reading statements end with the tokens, and more fuel changes nothing. -/
theorem rest_statements (p : Program) (hfuel : s.rest.length ≤ fuel) :
    (statements d fuel p s).2.rest = []
      ∧ ∀ more, fuel ≤ more → statements d more p s = statements d fuel p s := by
  induction fuel generalizing p s with
  | zero =>
    have hnil : s.rest = [] := List.length_eq_zero_iff.mp (Nat.le_zero.mp hfuel)
    exact ⟨hnil, fun more _ => statements_of_nil d more p hnil⟩
  | succ fuel ih =>
    cases hrest : s.rest with
    | nil =>
      rw [statements_of_nil d _ p hrest]
      exact ⟨hrest, fun more _ => statements_of_nil d more p hrest⟩
    | cons token rest =>
      have hless := length_round (d := d) (p := p) hrest
      obtain ⟨hend, hmore⟩ := ih (round d token p s).1 (s := (round d token p s).2) (by omega)
      rw [statements_of_cons d fuel p hrest]
      refine ⟨hend, ?_⟩
      intro more hle
      obtain ⟨more, rfl⟩ := Nat.exists_eq_add_one_of_ne_zero (Nat.ne_zero_of_lt hle)
      rw [statements_of_cons d more p hrest]
      exact hmore more (Nat.le_of_succ_le_succ hle)

/-- A round of a block takes a token, if the fuel covers what is left. -/
theorem rest_localRound (hrest : s.rest = token :: rest) (hbrace : token.isMark "\x7d" = false)
    (hfuel : 10 * s.rest.length + 2 ≤ fuel) : (localRound d fuel token s).2.rest <:+ rest := by
  obtain ⟨fuel, rfl⟩ : ∃ k, fuel = k + 1 := ⟨fuel - 1, by omega⟩
  rw [localRound]
  split
  · have hless := length_advance hrest
    have hneed : (Job.definition token).need s ≤ fuel := by
      simp only [Job.need]
      omega
    obtain ⟨_, hread⟩ := gives_run d (.definition token) s hneed
    exact State.rest_advance_of_rest hrest ▸ hread.entry_extends.suffix
  · have hextends := (s.extends_report token.start (.unexpectedLocal token) rfl).trans (State.extends_recover _)
    exact hextends.suffix_of_less hrest (length_recover (s := s.report _ _) hrest hbrace)

end Patchbay.Parser

namespace Patchbay.Program

open Patchbay.Parser

/-- Tokens whose numbers have values are read to the end, whatever they are, and as many expressions are open then as at
the start: none. The fuel does not run out. With fuel that covers it every job ends, since what its function gives is
derived by the rules of reading, each of which stands for a step; and more fuel changes nothing. Every round of reading
statements takes a token, and so does every round of a block. -/
theorem parse_takes_all (tokens : List Token) (maxDepth : Int)
    (hnumbers : ∀ t ∈ tokens, t.kind = .number → (Number.ofNumeral? t.text.toList).isSome = true) :
    Program.parse tokens maxDepth = .ok ((run maxDepth tokens).1, (run maxDepth tokens).2.findings)
    ∧ (run maxDepth tokens).2.rest = [] ∧ (run maxDepth tokens).2.depth = 0 ∧ (run maxDepth tokens).2.starved = false
    ∧ (∀ fuel, tokens.length ≤ fuel → statements maxDepth fuel .empty (.start tokens) = run maxDepth tokens)
    ∧ (∀ (job : Job) s fuel, job.need s ≤ fuel →
      Gives maxDepth job s (job.run maxDepth fuel s).1 (job.run maxDepth fuel s).2
      ∧ (job.run maxDepth fuel s).2.starved = s.starved
      ∧ job.run maxDepth fuel s = job.run maxDepth (job.need s) s)
    ∧ (∀ name s, (Job.definition name).need s ≤ fuelFor s)
    ∧ (∀ p s token rest, s.rest = token :: rest → (round maxDepth token p s).2.rest <:+ rest)
    ∧ ∀ locals s token rest fuel, s.rest = token :: rest → token.isMark "\x7d" = false →
      (Job.localDefinitions locals).need s ≤ fuel + 1 → ∃ new s', localRound maxDepth fuel token s = (new, s')
        ∧ localDefinitions maxDepth (fuel + 1) locals s = localDefinitions maxDepth fuel (locals ++ new) s'
        ∧ s'.rest <:+ rest ∧ (Job.localDefinitions (locals ++ new)).need s' ≤ fuel := by
  obtain ⟨hend, hmore⟩ := rest_statements (d := maxDepth) (s := .start tokens) .empty (Nat.le_refl _)
  have hextends : (State.start tokens).Extends (run maxDepth tokens).2 := extends_statements maxDepth _ .empty _
  refine ⟨parse_eq_ok maxDepth hnumbers, hend, hextends.depth, hextends.starved, hmore, ?_, need_definition_le, ?_, ?_⟩
  · intro job s fuel hfuel
    have hgives := gives_run maxDepth job s hfuel
    obtain ⟨_, hread⟩ := gives_run maxDepth job s (Nat.le_refl _)
    exact ⟨hgives, hgives.choose_spec.extends.starved, hread.run_eq hfuel⟩
  · intro p s token rest hrest
    exact (extends_round maxDepth token p s).suffix_of_less hrest (length_round hrest)
  · intro locals s token rest fuel hrest hbrace hfuel
    simp only [Job.need] at hfuel
    have hcovered : 10 * s.rest.length + 2 ≤ fuel := by omega
    have hsuffix := rest_localRound (d := maxDepth) hrest hbrace hcovered
    refine ⟨_, _, rfl, ?_, hsuffix, ?_⟩
    · rw [localDefinitions, hrest]
      simp [hbrace]
    · have hle := hsuffix.length_le
      rw [hrest, List.length_cons] at hfuel
      simp only [Job.need]
      omega

theorem parse_takes_all_bodiless :
    (∀ t ∈ bodilessTokens, t.kind = .number → (Number.ofNumeral? t.text.toList).isSome = true)
    ∧ (run 5 bodilessTokens).2.rest = [] ∧ (run 5 bodilessTokens).2.depth = 0
    ∧ (run 5 bodilessTokens).2.starved = false := by
  have h : ∀ t ∈ bodilessTokens, t.kind = .number → (Number.ofNumeral? t.text.toList).isSome = true := by
    decide +kernel
  obtain ⟨-, hend, hdepth, hstarved, -⟩ := parse_takes_all bodilessTokens 5 h
  exact ⟨h, hend, hdepth, hstarved⟩

end Patchbay.Program
