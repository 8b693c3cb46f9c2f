/-!
# Tables that keep the order of arrival

A table maps keys to values and lists its keys, no one twice, in the order in which they first came. Writing a
key again changes its value and keeps its place.
-/

namespace Patchbay

/-- Keys with their values, in order of arrival. -/
@[ext] structure Table (κ α : Type) where
  entries : List (κ × α)
  distinct : (entries.map (·.1)).Nodup
deriving Repr, DecidableEq

namespace Table

variable {κ α β : Type} [DecidableEq κ]

/-- The table without keys. -/
def empty : Table κ α := ⟨[], .nil⟩

instance : Inhabited (Table κ α) := ⟨empty⟩

/-- The value of the first entry with this key. -/
def find? (key : κ) : List (κ × α) → Option α
  | [] => none
  | (k, v) :: rest => if k = key then some v else find? key rest

/-- The entries with the value of `key` set, in place if there is one, else at the end. -/
def set (key : κ) (value : α) : List (κ × α) → List (κ × α)
  | [] => [(key, value)]
  | (k, v) :: rest => if k = key then (k, value) :: rest else (k, v) :: set key value rest

/-- A write adds its key at the end unless it is there already. -/
theorem map_fst_set (key : κ) (value : α) (entries : List (κ × α)) :
    (set key value entries).map (·.1)
      = if key ∈ entries.map (·.1) then entries.map (·.1) else entries.map (·.1) ++ [key] := by
  induction entries with
  | nil => rfl
  | cons e rest ih =>
    obtain ⟨k, v⟩ := e
    by_cases h : k = key
    · simp [set, h]
    · simp only [set, h, if_false, List.map_cons, List.mem_cons, Ne.symm h, false_or, ih]
      split <;> rfl

theorem nodup_set {entries : List (κ × α)} (h : (entries.map (·.1)).Nodup) (key : κ) (value : α) :
    ((set key value entries).map (·.1)).Nodup := by
  rw [map_fst_set]
  split
  · exact h
  · rename_i hnew
    refine List.nodup_append.mpr ⟨h, by simp, ?_⟩
    rintro k hk _ hkey rfl
    exact hnew (List.mem_singleton.mp hkey ▸ hk)

/-- The value of a key. -/
def get? (t : Table κ α) (key : κ) : Option α := find? key t.entries

/-- Sets the value of a key. -/
def insert (t : Table κ α) (key : κ) (value : α) : Table κ α :=
  ⟨set key value t.entries, nodup_set t.distinct key value⟩

/-- Whether the table has the key. -/
def contains (t : Table κ α) (key : κ) : Bool := (t.get? key).isSome

/-- Keys in order of arrival. -/
def keys (t : Table κ α) : List κ := t.entries.map (·.1)

/-- Values in order of arrival of their keys. -/
def values (t : Table κ α) : List α := t.entries.map (·.2)

/-- The number of keys. -/
def size (t : Table κ α) : Nat := t.entries.length

/-- A table from entries; of two with one key the later value stays, in the place of the earlier. -/
def ofList (entries : List (κ × α)) : Table κ α :=
  entries.foldl (fun t e => t.insert e.1 e.2) empty

theorem find?_set_self (key : κ) (value : α) (entries : List (κ × α)) :
    find? key (set key value entries) = some value := by
  induction entries with
  | nil => simp [set, find?]
  | cons e rest ih =>
    obtain ⟨k, v⟩ := e
    by_cases h : k = key <;> simp [set, find?, h, ih]

theorem find?_set_of_ne {key other : κ} (h : other ≠ key) (value : α) (entries : List (κ × α)) :
    find? other (set key value entries) = find? other entries := by
  induction entries with
  | nil => simp [set, find?, Ne.symm h]
  | cons e rest ih =>
    obtain ⟨k, v⟩ := e
    by_cases hk : k = key
    · subst hk; simp [set, find?, Ne.symm h]
    · simp only [set, hk, if_false, find?, ih]

@[simp] theorem get?_empty (key : κ) : (empty : Table κ α).get? key = none := rfl

@[simp] theorem get?_insert_self (t : Table κ α) (key : κ) (value : α) :
    (t.insert key value).get? key = some value :=
  find?_set_self key value t.entries

theorem get?_insert_of_ne (t : Table κ α) {key other : κ} (h : other ≠ key) (value : α) :
    (t.insert key value).get? other = t.get? other :=
  find?_set_of_ne h value t.entries

/-- What a key holds after a write. -/
theorem get?_insert (t : Table κ α) (key other : κ) (value : α) :
    (t.insert key value).get? other = if other = key then some value else t.get? other := by
  by_cases h : other = key
  · subst h; simp
  · simp [h, get?_insert_of_ne]

/-- A new key is added at the end. -/
theorem set_of_not_mem {key : κ} {entries : List (κ × α)} (h : key ∉ entries.map (·.1)) (value : α) :
    set key value entries = entries ++ [(key, value)] := by
  induction entries with
  | nil => rfl
  | cons e rest ih =>
    obtain ⟨hfirst, hrest⟩ := not_or.mp (mt List.mem_cons.mpr h)
    simp only [set, Ne.symm hfirst, if_false, ih hrest, List.cons_append]

/-- Entries whose keys are new are added at the end. -/
theorem entries_foldl_insert (later : List (κ × α)) (t : Table κ α)
    (h : ((t.entries ++ later).map (·.1)).Nodup) :
    (later.foldl (fun t e => t.insert e.1 e.2) t).entries = t.entries ++ later := by
  induction later generalizing t with
  | nil => simp
  | cons e later ih =>
    have hnew : e.1 ∉ t.entries.map (·.1) := by
      rw [List.map_append, List.nodup_append] at h
      exact fun hmem => h.2.2 e.1 hmem e.1 List.mem_cons_self rfl
    have hinsert : (t.insert e.1 e.2).entries = t.entries ++ [e] := set_of_not_mem hnew e.2
    rw [List.foldl_cons, ih (t.insert e.1 e.2) (by simpa [hinsert] using h), hinsert, List.append_assoc]
    rfl

/-- A table is what its entries make. -/
theorem ofList_entries (t : Table κ α) : ofList t.entries = t :=
  Table.ext (entries_foldl_insert t.entries empty t.distinct)

end Table

end Patchbay
