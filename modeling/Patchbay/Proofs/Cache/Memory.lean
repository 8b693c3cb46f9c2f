import Patchbay.Cache
import Patchbay.Proofs.Scope.Imports

/-!
# What a cache has in memory

An entry that is remembered becomes the newest, and nothing else gets into memory. There is never more in memory than
the capacity allows.
-/

namespace Patchbay.Cache

variable {c : Cache} {key : CacheKey} {report : Report}

theorem mem_of_held? (h : c.held? key = some report) : (key, report) ∈ c.entries := Table.mem_of_find? h

/-- What is in memory after an entry was remembered is this entry, or it was there before under another key. -/
theorem mem_remember {e : CacheKey × Report} (h : e ∈ (c.remember key report).entries) :
    e = (key, report) ∨ e ∈ c.entries ∧ e.1 ≠ key := by
  have hmem : e ∈ c.entries.filter (fun e => e.1 ≠ key) ++ [(key, report)] := List.mem_of_mem_drop h
  rcases List.mem_append.mp hmem with hmem | hmem
  · obtain ⟨hbefore, hne⟩ := List.mem_filter.mp hmem
    exact .inr ⟨hbefore, by simpa using hne⟩
  · exact .inl (List.mem_singleton.mp hmem)

theorem size_remember_le (c : Cache) (key : CacheKey) (report : Report) :
    (c.remember key report).size ≤ c.capacity := by
  unfold size remember
  rw [List.length_drop]
  omega

/-- The report that a key is looked up with comes from memory or, if memory does not have the key, from the store. -/
def known? (c : Cache) (key : CacheKey) : Option Report :=
  (c.held? key).or (c.store.bind fun s => s.load? key)

/-- A look-up of a key that is known remembers its report and counts a hit. -/
theorem lookup_of_some (h : c.known? key = some report) :
    c.lookup key = (some report, { c.remember key report with hits := c.hits + 1 }) := by
  unfold lookup
  rw [show (c.held? key).or (c.store.bind fun s => s.load? key) = some report from h]

/-- A look-up of a key that is not known counts a miss. -/
theorem lookup_of_none (h : c.known? key = none) : c.lookup key = (none, { c with misses := c.misses + 1 }) := by
  unfold lookup
  rw [show (c.held? key).or (c.store.bind fun s => s.load? key) = none from h]

end Patchbay.Cache
