import Mathlib.Data.List.Perm.Subperm
import Patchbay.Proofs.Scope.Visit

/-!
# A library imported twice

Of libraries that make the same visible only the first is kept. A name gets the same symbol from each of them, so
leaving out the others does not change what any name stands for.
-/

open List

namespace Patchbay

namespace Table

variable {κ α : Type} [DecidableEq κ]

theorem mem_of_find? {key : κ} {value : α} {entries : List (κ × α)} (h : find? key entries = some value) :
    (key, value) ∈ entries := by
  induction entries with
  | nil => simp [find?] at h
  | cons e rest ih =>
    obtain ⟨k, v⟩ := e
    rw [find?] at h
    by_cases hk : k = key
    · rw [if_pos hk] at h
      obtain rfl := Option.some.inj h
      exact hk ▸ mem_cons_self
    · rw [if_neg hk] at h
      exact mem_cons_of_mem _ (ih h)

/-- Two tables of the same content give every key the same value. The first one has as many different keys as the
second one has entries, so the second one has no key besides. -/
theorem get?_of_sameContent [DecidableEq α] {s t : Table κ α} (h : s.sameContent t) (key : κ) :
    t.get? key = s.get? key := by
  unfold sameContent at h
  rw [Bool.and_eq_true] at h
  have hsize : s.entries.length = t.entries.length := by simpa [size] using h.1
  have hentries : ∀ e ∈ s.entries, t.get? e.1 = some e.2 := by
    intro e he
    simpa using all_eq_true.mp h.2 e he
  cases hkey : s.get? key with
  | some value => exact hentries (key, value) (mem_of_find? hkey)
  | none =>
    cases ht : t.get? key with
    | none => rfl
    | some value =>
      exfalso
      have hnew : key ∉ s.keys := find?_eq_none_iff.mp hkey
      have hsub : key :: s.keys ⊆ t.keys := by
        intro k hk
        rcases mem_cons.mp hk with rfl | hk
        · exact mem_keys_iff.mpr ⟨_, ht⟩
        · obtain ⟨e, he, rfl⟩ := mem_map.mp hk
          exact mem_keys_iff.mpr ⟨_, hentries e he⟩
      have hlength := (subperm_of_subset (nodup_cons.mpr ⟨hnew, s.distinct⟩) hsub).length_le
      simp only [keys, length_cons, length_map] at hlength
      omega

end Table

namespace Lexical

open Resolver

/-- Libraries that make the same visible give every name the same symbol. -/
theorem librarySymbol?_of_same {a b : Library} (h : a.same b) (head name : String) :
    librarySymbol? head name b = librarySymbol? head name a := by
  unfold Library.same at h
  rw [Bool.and_eq_true, Bool.and_eq_true] at h
  have hname : a.name = b.name := by simpa using h.1.1
  have hnamespaces := Table.get?_of_sameContent h.1.2 head
  have hsymbols := Table.get?_of_sameContent h.2 name
  unfold librarySymbol? Table.contains
  rw [hsymbols, hnamespaces, hname]

/-- The first library that knows a name stays the first when repeated ones are left out. -/
theorem findSome?_addLibrary (head name : String) (libraries kept : List Library) :
    (libraries.foldl addLibrary kept).findSome? (librarySymbol? head name)
      = (kept ++ libraries).findSome? (librarySymbol? head name) := by
  induction libraries generalizing kept with
  | nil => rw [append_nil, foldl_nil]
  | cons library rest ih =>
    rw [foldl_cons]
    cases hany : kept.any (·.same library) with
    | true =>
      obtain ⟨first, hfirst, hsame⟩ := any_eq_true.mp hany
      have hsymbol := librarySymbol?_of_same hsame head name
      have hadd : addLibrary kept library = kept := by
        rw [addLibrary, if_pos hany]
      rw [hadd, ih kept, findSome?_append, findSome?_append, findSome?_cons]
      cases hkeptSymbol : kept.findSome? (librarySymbol? head name) with
      | some symbol => rfl
      | none =>
        have hnone := findSome?_eq_none_iff.mp hkeptSymbol first hfirst
        rw [hsymbol, hnone]
    | false =>
      have hadd : addLibrary kept library = kept ++ [library] := by
        rw [addLibrary, hany]
        rfl
      rw [hadd, ih (kept ++ [library]), List.append_assoc]
      rfl

/-- What the names of a program are resolved against. -/
def programContext (available : Libraries) (p : Program) : Context :=
  { available
    imported := importedLibraries available p.imports
    failedImport := (p.imports.map (importInfo available)).any fun i => !i.found }

/-- The libraries of a program without the repeated ones. -/
def Imports.kept (available : Libraries) (p : Program) : Imports :=
  ⟨importedLibraries available p.imports, (programContext available p).failedImport⟩

theorem serve_kept (available : Libraries) (p : Program) :
    (Imports.kept available p).Serve (programContext available p) := fun _ => rfl

/-- The libraries of a program give every name what its imports give it. -/
theorem serve_programContext (available : Libraries) (p : Program) :
    (Imports.ofProgram available p).Serve (programContext available p) := by
  have hfailed : (p.imports.map (importInfo available)).any (fun i => !i.found)
      = p.imports.any fun i => !available.contains i.path := by
    rw [any_map]
    rfl
  intro name
  unfold importedSymbol? Imports.symbol?
  cases dottedPrefix? name with
  | none => rfl
  | some head =>
    have hfind := findSome?_addLibrary head name (p.imports.filterMap fun i => available.get? i.path) []
    simp only [programContext, Imports.ofProgram, hfailed, importedLibraries]
    rw [nil_append] at hfind
    rw [← hfind]
    rfl

end Lexical

end Patchbay
