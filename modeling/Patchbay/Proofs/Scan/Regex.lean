import Patchbay.Token.Scan

/-!
# Regular expressions with ordered choice

Of all ways to match, the first one in order counts: the first alternative that leads on, and as many rounds of a
repetition, or as few, as lead on. `lefts` lists what the matches leave of a text, the preferred one first, and
`first` is what the preferred match leaves.

A repetition gives rounds back only if what stands behind it cannot follow the last one. `lefts_most` says where else
it could follow: only where another round would start.
-/

open List

namespace Patchbay.Scan

/-- A regular expression with ordered choice. -/
inductive Regex where
  /-- One character of a class. -/
  | one (p : Char → Bool)
  | empty
  /-- The end of the text. -/
  | atEnd
  | seq (r s : Regex)
  /-- The second only if no match of the first leads on. -/
  | alt (r s : Regex)
  /-- As many rounds as possible. -/
  | most (r : Regex)
  /-- As few rounds as possible. -/
  | least (r : Regex)

namespace Regex

/-- What repeated matches leave, more rounds first. -/
def repeatMost (round : List Char → List (List Char)) : (rounds : Nat) → List Char → List (List Char)
  | 0, cs => [cs]
  | rounds + 1, cs => (round cs).flatMap (repeatMost round rounds) ++ [cs]

/-- What repeated matches leave, fewer rounds first. -/
def repeatLeast (round : List Char → List (List Char)) : (rounds : Nat) → List Char → List (List Char)
  | 0, cs => [cs]
  | rounds + 1, cs => cs :: (round cs).flatMap (repeatLeast round rounds)

/-- What matches at the start of a text leave of it, the preferred match first. No expression that is repeated here
matches nothing, so a text has at most as many rounds as characters. -/
def lefts : Regex → List Char → List (List Char)
  | one _, [] => []
  | one p, c :: cs => if p c then [cs] else []
  | empty, cs => [cs]
  | atEnd, cs => if cs.isEmpty then [cs] else []
  | seq r s, cs => (r.lefts cs).flatMap s.lefts
  | alt r s, cs => r.lefts cs ++ s.lefts cs
  | most r, cs => repeatMost r.lefts cs.length cs
  | least r, cs => repeatLeast r.lefts cs.length cs

/-- What the preferred match leaves of a text; none if there is no match. -/
def first (r : Regex) (cs : List Char) : Option (List Char) := (r.lefts cs).head?

/-- At least one round, and as many as possible. -/
def plus (r : Regex) : Regex := seq r (most r)

/-- This character. -/
def exact (c : Char) : Regex := one (· == c)

/-- The first of several expressions that leads on. -/
def anyOf : List Regex → Regex
  | [] => one fun _ => false
  | r :: rs => alt r (anyOf rs)

end Regex

/-! ## Preferred matches -/

variable {c : Char} {r s : Regex} {cs ds : List Char} {p : Char → Bool} {step : List Char → Option (List Char)}

namespace Regex

theorem first_one_cons (p : Char → Bool) (c : Char) (cs : List Char) :
    (one p).first (c :: cs) = if p c then some cs else none := by
  unfold first lefts
  split
  · rfl
  · rfl

theorem first_seq {es : List Char} (hr : r.first cs = some ds) (hs : s.first ds = some es) :
    (seq r s).first cs = some es := by
  obtain ⟨others, hlefts⟩ := head?_eq_some_iff.mp hr
  have hcons : (seq r s).lefts cs = s.lefts ds ++ others.flatMap s.lefts := by
    rw [lefts, hlefts, flatMap_cons]
  unfold first at hs ⊢
  rw [hcons, head?_append, hs]
  rfl

/-- Without a first part there is no match. -/
theorem first_seq_of_none (hr : r.first cs = none) (s : Regex) : (seq r s).first cs = none := by
  have hnil : r.lefts cs = [] := head?_eq_none_iff.mp hr
  unfold first
  rw [lefts, hnil]
  rfl

/-- If the second part can follow only the preferred match of the first, nothing else counts. -/
theorem lefts_seq {others : List (List Char)} (hr : r.lefts cs = ds :: others) (hs : ∀ es ∈ others, s.lefts es = []) :
    (seq r s).lefts cs = s.lefts ds := by
  have hnone : others.flatMap s.lefts = [] := flatMap_eq_nil_iff.mpr hs
  rw [lefts, hr, flatMap_cons, hnone, append_nil]

theorem first_alt (r s : Regex) (cs : List Char) : (alt r s).first cs = (r.first cs).or (s.first cs) := by
  unfold first
  rw [lefts, head?_append]

theorem first_anyOf (rs : List Regex) (cs : List Char) : (anyOf rs).first cs = rs.findSome? (·.first cs) := by
  induction rs with
  | nil =>
    cases cs with
    | nil => rfl
    | cons c cs => rfl
  | cons r rs ih =>
    rw [anyOf, first_alt, ih, findSome?_cons]
    cases r.first cs with
    | none => rfl
    | some ds => rfl

theorem first_exact_cons (c d : Char) (cs : List Char) :
    (exact c).first (d :: cs) = if d = c then some cs else none := by
  simp [exact, first_one_cons]

theorem first_seq_exact_self (c : Char) (s : Regex) (cs : List Char) :
    (seq (exact c) s).first (c :: cs) = s.first cs := by
  have hlefts : (exact c).lefts (c :: cs) = [cs] := by simp [exact, lefts]
  unfold first
  rw [lefts_seq hlefts (by simp)]

theorem first_seq_exact_of_ne {d : Char} (h : d ≠ c) (s : Regex) (cs : List Char) :
    (seq (exact c) s).first (d :: cs) = none :=
  first_seq_of_none (by rw [first_exact_cons, if_neg h]) s

/-! ## Repetitions -/

/-- Steps from one text to the next, at most so many and as long as there is one. -/
def follow (step : List Char → Option (List Char)) : (rounds : Nat) → List Char → List Char
  | 0, cs => cs
  | rounds + 1, cs =>
    match step cs with
    | none => cs
    | some ds => follow step rounds ds

theorem follow_of_none (h : step cs = none) (rounds : Nat) : follow step rounds cs = cs := by
  cases rounds with
  | zero => rfl
  | succ rounds => rw [follow, h]

theorem follow_of_some (h : step cs = some ds) (rounds : Nat) :
    follow step (rounds + 1) cs = follow step rounds ds := by
  rw [follow, h]

/-- The preferred repetition follows the preferred matches. -/
theorem first_most (r : Regex) (cs : List Char) :
    (most r).first cs = some (follow r.first cs.length cs) := by
  suffices h : ∀ rounds ds, (repeatMost r.lefts rounds ds).head? = some (follow r.first rounds ds) from
    h cs.length cs
  intro rounds
  induction rounds with
  | zero =>
    intro ds
    rfl
  | succ rounds ih =>
    intro ds
    rw [repeatMost]
    cases hlefts : r.lefts ds with
    | nil =>
      have hfirst : r.first ds = none := by rw [first, hlefts]; rfl
      rw [follow_of_none hfirst]
      rfl
    | cons es others =>
      have hfirst : r.first ds = some es := by rw [first, hlefts]; rfl
      rw [follow_of_some hfirst, flatMap_cons, List.append_assoc, head?_append, ih es]
      rfl

theorem follow_one (p : Char → Bool) (rounds : Nat) (cs : List Char) (h : cs.length ≤ rounds) :
    follow (one p).first rounds cs = cs.dropWhile p := by
  induction cs generalizing rounds with
  | nil => exact follow_of_none rfl rounds
  | cons c cs ih =>
    by_cases hc : p c
    · obtain ⟨k, rfl⟩ : ∃ k, rounds = k + 1 := ⟨rounds - 1, by simp at h; omega⟩
      have hfirst : (one p).first (c :: cs) = some cs := by rw [first_one_cons, if_pos hc]
      rw [follow_of_some hfirst, dropWhile_cons_of_pos hc]
      exact ih k (by simpa using h)
    · have hfirst : (one p).first (c :: cs) = none := by rw [first_one_cons, if_neg hc]
      rw [follow_of_none hfirst, dropWhile_cons_of_neg hc]

/-- Characters of a class are taken as long as there are any. -/
theorem first_most_one (p : Char → Bool) (cs : List Char) :
    (most (one p)).first cs = some (cs.dropWhile p) := by
  rw [first_most, follow_one p cs.length cs (Nat.le_refl _)]

theorem first_plus_one_cons (h : p c) (cs : List Char) :
    (plus (one p)).first (c :: cs) = some (cs.dropWhile p) :=
  first_seq (by rw [first_one_cons, if_pos h]) (first_most_one p cs)

theorem first_plus_one_of_none (h : ∀ c ∈ cs.head?, p c = false) : (plus (one p)).first cs = none := by
  apply first_seq_of_none
  cases cs with
  | nil => rfl
  | cons c cs => rw [first_one_cons, if_neg (by simp [h c rfl])]

/-- An expression that matches in one way at most. -/
def Single (r : Regex) : Prop := ∀ cs, r.lefts cs = (r.first cs).toList

theorem single_one (p : Char → Bool) : Single (one p) := by
  intro cs
  cases cs with
  | nil => rfl
  | cons c cs =>
    unfold first lefts
    split
    · rfl
    · rfl

/-- A repetition of single matches leaves, after the preferred text, only texts at which another round would start. -/
theorem lefts_most (hr : Single r) (cs : List Char) :
    ∃ others, (most r).lefts cs = follow r.first cs.length cs :: others ∧
      ∀ ds ∈ others, r.first ds ≠ none := by
  suffices h : ∀ rounds ds, ∃ others, repeatMost r.lefts rounds ds = follow r.first rounds ds :: others ∧
      ∀ es ∈ others, r.first es ≠ none from h cs.length cs
  intro rounds
  induction rounds with
  | zero =>
    intro ds
    exact ⟨[], rfl, by simp⟩
  | succ rounds ih =>
    intro ds
    rw [repeatMost, hr ds]
    cases hfirst : r.first ds with
    | none =>
      rw [follow_of_none hfirst]
      exact ⟨[], rfl, by simp⟩
    | some es =>
      obtain ⟨others, hlefts, hothers⟩ := ih es
      rw [follow_of_some hfirst]
      refine ⟨others ++ [ds], by simp [hlefts], ?_⟩
      intro fs hfs
      rcases mem_append.mp hfs with hfs | hfs
      · exact hothers fs hfs
      · rw [mem_singleton.mp hfs, hfirst]
        simp

/-- A run of a class followed by something that does not start in the class. -/
theorem first_seq_run (hs : ∀ c cs, p c → s.first (c :: cs) = none) (cs : List Char) :
    (seq (most (one p)) s).first cs = s.first (cs.dropWhile p) := by
  obtain ⟨others, hlefts, hothers⟩ := lefts_most (single_one p) cs
  rw [follow_one p cs.length cs (Nat.le_refl _)] at hlefts
  unfold first
  rw [lefts_seq hlefts]
  intro ds hds
  cases ds with
  | nil => exact absurd rfl (hothers [] hds)
  | cons c ds =>
    have hc : p c := by
      have hround := hothers (c :: ds) hds
      rw [first_one_cons] at hround
      exact Decidable.byContradiction fun hc => hround (if_neg hc)
    exact head?_eq_none_iff.mp (hs c ds hc)

end Regex

end Patchbay.Scan
