import Mathlib.Data.List.DropRight
import Patchbay.Control

/-!
# Clean labels

Metadata of a label stands between a bracket and the next closing one. Taking it out joins the texts around it but makes
no new metadata: no closing bracket comes behind a bracket that stays. So a label is clean after one pass.
-/

open List

namespace Patchbay

open Text

/-- No bracket is closed later. -/
def Unclosed (cs : List Char) : Prop := ∀ front back, cs = front ++ '[' :: back → ']' ∉ back

/-- What a text is without its metadata: a bracket that is closed later goes, with all up to the next closing one, and
every other character stays. -/
inductive Sheds : (cs kept : List Char) → Prop
  | nil : Sheds [] []
  | keep {c : Char} {cs kept : List Char} (hc : c = '[' → ']' ∉ cs) (h : Sheds cs kept) : Sheds (c :: cs) (c :: kept)
  | drop {inner back kept : List Char} (hinner : ']' ∉ inner) (h : Sheds back kept) :
      Sheds ('[' :: (inner ++ ']' :: back)) kept

/-- A label without metadata and without blanks around it. -/
structure IsClean (cs : List Char) : Prop where
  unclosed : Unclosed cs
  start : ∀ c ∈ cs.head?, isBlank c = false
  stop : ∀ c ∈ cs.getLast?, isBlank c = false

variable {c : Char} {cs kept front back : List Char}

theorem unclosed_cons : Unclosed (c :: cs) ↔ (c = '[' → ']' ∉ cs) ∧ Unclosed cs := by
  refine ⟨fun h => ⟨fun hc => h [] cs (by simp [hc]), fun front back hcs => h (c :: front) back (by simp [hcs])⟩, ?_⟩
  rintro ⟨hc, h⟩ front back heq
  rcases cons_eq_append_iff.mp heq with ⟨-, hback⟩ | ⟨front', -, hcs⟩
  · obtain ⟨rfl, rfl⟩ := cons.inj hback
    exact hc rfl
  · exact h front' back hcs

theorem Unclosed.of_append (h : Unclosed (front ++ cs ++ back)) : Unclosed cs := by
  intro before after hcs hmem
  exact h (front ++ before) (after ++ back) (by simp [hcs]) (mem_append_left _ hmem)

theorem Sheds.subset (h : Sheds cs kept) : kept ⊆ cs := by
  induction h with
  | nil => exact Subset.refl _
  | keep _ _ ih => exact cons_subset_cons _ ih
  | drop _ _ ih => exact fun c hc => by simp [ih hc]

/-- A bracket that stays has no closing one behind it before, so it has none after. -/
theorem Sheds.unclosed (h : Sheds cs kept) : Unclosed kept := by
  induction h with
  | nil => exact fun front back h => by simp at h
  | keep hc h ih => exact unclosed_cons.mpr ⟨fun hopen hmem => hc hopen (h.subset hmem), ih⟩
  | drop _ _ ih => exact ih

theorem exists_dropMetadata_inside (h : ']' ∈ cs) : ∃ inner back, cs = inner ++ ']' :: back ∧ ']' ∉ inner ∧
    dropMetadata true cs = dropMetadata false back := by
  induction cs with
  | nil => cases h
  | cons c cs ih =>
    by_cases hc : c = ']'
    · exact ⟨[], cs, by simp [hc], by simp, by simp [dropMetadata, hc]⟩
    · obtain ⟨inner, back, rfl, hinner, hdrop⟩ := ih ((mem_cons.mp h).resolve_left (Ne.symm hc))
      exact ⟨c :: inner, back, rfl, by simp [hinner, Ne.symm hc], by simp [dropMetadata, hc, hdrop]⟩

theorem sheds_dropMetadata (cs : List Char) : Sheds cs (dropMetadata false cs) := by
  -- The text after metadata is shorter, but no tail that the recursion goes through.
  induction hn : cs.length using Nat.strong_induction_on generalizing cs with
  | _ n ih =>
    cases cs with
    | nil => exact .nil
    | cons c cs =>
      rw [dropMetadata]
      split
      · rename_i hopen
        obtain ⟨rfl, hclosed⟩ : c = '[' ∧ ']' ∈ cs := by simpa using hopen
        obtain ⟨inner, back, rfl, hinner, hdrop⟩ := exists_dropMetadata_inside hclosed
        rw [hdrop]
        exact .drop hinner (ih back.length (by simp at hn; omega) back rfl)
      · rename_i hopen
        exact .keep (by simpa using hopen) (ih cs.length (by simp at hn; omega) cs rfl)

theorem dropMetadata_of_unclosed (h : Unclosed cs) : dropMetadata false cs = cs := by
  induction cs with
  | nil => rfl
  | cons c cs ih =>
    obtain ⟨hc, hcs⟩ := unclosed_cons.mp h
    rw [dropMetadata, if_neg (by simpa using hc), ih hcs]

namespace Text

/-- Trimming takes blanks off both ends. -/
theorem exists_append_trim (cs : List Char) :
    ∃ front back, cs = front ++ trim cs ++ back ∧ front.all isBlank ∧ back.all isBlank := by
  refine ⟨cs.takeWhile isBlank, (cs.dropWhile isBlank).rtakeWhile isBlank, ?_, all_takeWhile, ?_⟩
  · rw [List.append_assoc]
    show cs = _ ++ ((cs.dropWhile isBlank).rdropWhile isBlank ++ _)
    rw [rdropWhile_append_rtakeWhile, takeWhile_append_dropWhile]
  · exact all_eq_true.mpr fun c hc => mem_rtakeWhile_imp hc

theorem isBlank_head_trim (hc : c ∈ (trim cs).head?) : isBlank c = false := by
  obtain ⟨back, hback⟩ := rdropWhile_prefix isBlank (l := cs.dropWhile isBlank)
  have hhead : (cs.dropWhile isBlank).head? = some c := by
    rw [← hback, head?_append, show head? (rdropWhile isBlank _) = some c from hc]
    rfl
  simpa [hhead] using head?_dropWhile_not isBlank cs

theorem isBlank_getLast_trim (hc : c ∈ (trim cs).getLast?) : isBlank c = false := by
  rw [trim, trimWhere, getLast?_reverse] at hc
  simpa [Option.mem_def.mp hc] using head?_dropWhile_not isBlank (cs.dropWhile isBlank).reverse

end Text

theorem IsClean.trim_eq (h : IsClean cs) : trim cs = cs := by
  have hstart : cs.dropWhile isBlank = cs := by
    cases cs with
    | nil => rfl
    | cons c cs => exact dropWhile_cons_of_neg (by simp [h.start c rfl])
  show (cs.dropWhile isBlank).rdropWhile isBlank = cs
  rw [hstart, rdropWhile_eq_self_iff]
  intro hne
  simp [h.stop _ (getLast?_eq_some_getLast hne)]

theorem isClean_trim (h : Unclosed cs) : IsClean (trim cs) := by
  obtain ⟨front, back, hcs, -⟩ := exists_append_trim cs
  exact ⟨.of_append (hcs ▸ h), fun _ => isBlank_head_trim, fun _ => isBlank_getLast_trim⟩

/-- Cleaning takes out the metadata and the blanks around what is left, and nothing else. What it gives is clean, so
cleaning it again changes nothing. -/
theorem cleanLabel_complete (label : String) :
    IsClean (cleanLabel label).toList ∧ cleanLabel (cleanLabel label) = cleanLabel label ∧
      ∃ front back, Sheds label.toList (front ++ (cleanLabel label).toList ++ back) ∧ front.all isBlank ∧
        back.all isBlank := by
  have hsheds := sheds_dropMetadata label.toList
  have hlabel : (cleanLabel label).toList = trim (dropMetadata false label.toList) := by simp [cleanLabel]
  have hclean : IsClean (cleanLabel label).toList := hlabel ▸ isClean_trim hsheds.unclosed
  obtain ⟨front, back, hcs, hblank⟩ := exists_append_trim (dropMetadata false label.toList)
  refine ⟨hclean, ?_, front, back, ?_, hblank⟩
  · conv_lhs => rw [cleanLabel, dropMetadata_of_unclosed hclean.unclosed, hclean.trim_eq]
    simp
  · rw [hlabel, ← hcs]
    exact hsheds

end Patchbay
