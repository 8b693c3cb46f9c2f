/-!
# Similar words

How alike two words are is measured by what they share: the longest common run of characters, then what
the parts before it and the parts after it share in the same way. The measure is twice the shared length
over the length of both words. In a word of two hundred characters or more, a character that makes up
more than a hundredth of it does not start a run, though it may extend one.
-/

namespace Patchbay.Text

/-- A place where two texts share a run: where it starts in either, and its length. -/
structure Run where
  left : Nat
  right : Nat
  length : Nat
deriving DecidableEq, Repr, Inhabited

/-- Lengths of the runs that end at `a` and at each character of `bs`, from those that end one place
earlier in both (`diagonal`). -/
def runsEndingAt (popular : List Char) (a : Char) : (bs : List Char) → (diagonal : List Nat) → List Nat
  | [], _ => []
  | b :: bs, diagonal =>
    let earlier := diagonal.headD 0
    (if a = b && !popular.contains b then earlier + 1 else 0)
      :: runsEndingAt popular a bs diagonal.tail

/-- The longest run so far, given the lengths of runs that end at place `i` of the left text and at the
places from `j` on of the right one. Of equals the earlier one stays. -/
def bestOfRow (i : Nat) : (j : Nat) → List Nat → Run → Run
  | _, [], best => best
  | j, length :: rest, best =>
    let best := if best.length < length then ⟨i + 1 - length, j + 1 - length, length⟩ else best
    bestOfRow i (j + 1) rest best

/-- The longest run of unpopular characters. -/
def longestRun (popular bs : List Char) : (as : List Char) → (i : Nat) → (row : List Nat) → Run → Run
  | [], _, _, best => best
  | a :: as, i, row, best =>
    let row := runsEndingAt popular a bs (0 :: row)
    longestRun popular bs as (i + 1) row (bestOfRow i 0 row best)

/-- The length of the common start of two texts. -/
def commonStart : List Char → List Char → Nat
  | a :: as, b :: bs => if a = b then commonStart as bs + 1 else 0
  | _, _ => 0

/-- The longest run, extended on both sides by whatever the texts share there. -/
def extendedRun (popular as bs : List Char) : Run :=
  let run := longestRun popular bs as 0 [] ⟨0, 0, 0⟩
  let back := commonStart (as.take run.left).reverse (bs.take run.right).reverse
  let ahead := commonStart (as.drop (run.left + run.length)) (bs.drop (run.right + run.length))
  ⟨run.left - back, run.right - back, run.length + back + ahead⟩

/-- The length that two texts share. Each run shortens the left text, so its length is fuel enough. -/
def sharedLength (popular : List Char) : (fuel : Nat) → (as bs : List Char) → Nat
  | 0, _, _ => 0
  | fuel + 1, as, bs =>
    let run := extendedRun popular as bs
    if run.length = 0 then 0
    else
      sharedLength popular fuel (as.take run.left) (bs.take run.right) + run.length
        + sharedLength popular fuel (as.drop (run.left + run.length)) (bs.drop (run.right + run.length))

/-- Characters that are too common in a long word to start a run. -/
def popularCharacters (word : List Char) : List Char :=
  if word.length < 200 then []
  else word.eraseDups.filter fun c => word.length / 100 + 1 < word.count c

/-- A share of a whole, as a fraction. -/
structure Ratio where
  part : Nat
  whole : Nat
deriving DecidableEq, Repr, Inhabited

/-- Order of fractions with positive wholes. -/
def Ratio.le (r s : Ratio) : Bool := r.part * s.whole ≤ s.part * r.whole

/-- How alike a candidate is to a word; two empty texts are wholly alike. -/
def similarity (word candidate : List Char) : Ratio :=
  let whole := word.length + candidate.length
  if whole = 0 then ⟨1, 1⟩
  else ⟨2 * sharedLength (popularCharacters word) (candidate.length + 1) candidate word, whole⟩

/-- The better of two rated candidates; of equally good ones the greater text. -/
def better (a b : Ratio × String) : Ratio × String :=
  if a.1.le b.1 && !b.1.le a.1 then b
  else if b.1.le a.1 && !a.1.le b.1 then a
  else if a.2 < b.2 then b else a

/-- The candidate most alike to a word, provided it reaches the cutoff. -/
def closest? (cutoff : Ratio) (word : String) (candidates : List String) : Option String :=
  let rated := candidates.map fun c => (similarity word.toList c.toList, c)
  match rated.filter fun r => cutoff.le r.1 with
  | [] => none
  | r :: rs => some (rs.foldl better r).2

end Patchbay.Text
