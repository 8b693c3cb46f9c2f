import Mathlib.Data.Finset.Card
import Mathlib.Data.Finset.Dedup
import Patchbay.Proofs.Cache.Memory

/-!
# Memory keeps what was used last

A cache without a store is put reports into, asked for them and emptied in any order. What it answers depends only on
what was done before. A report that was put is used by putting it and by each answer; it is given back as long as fewer
other ones than the capacity were used after its own last use.

The order of the entries in memory is the order of last use, without those for which there is no room.
-/

open List

namespace Patchbay

/-- What a caller does with a cache in memory: puts a report, asks for one, or empties the cache. -/
inductive MemoryCall where
  | put (source : String) (detail : Detail) (report : Report)
  | get (source : String) (detail : Detail)
  | clear

namespace MemoryCall

/-- The text that a call is about. -/
def source? : MemoryCall → Option String
  | .put source _ _ => some source
  | .get source _ => some source
  | .clear => none

end MemoryCall

/-! ## Logs of calls -/

/-- Calls with the answers to them, the last one first. -/
abbrev MemoryLog := List (MemoryCall × Option Report)

namespace MemoryLog

/-- What was put or given back since the cache was emptied, the last use first. -/
def used : MemoryLog → List (String × Detail)
  | [] => []
  | (.put source detail _, _) :: past => (source, detail) :: used past
  | (.get source detail, some _) :: past => (source, detail) :: used past
  | (.get _ _, none) :: past => used past
  | (.clear, _) :: _ => []

/-- The report that was put last for a text and a level of detail since the cache was emptied. -/
def lastPut? (topic : String × Detail) : MemoryLog → Option Report
  | [] => none
  | (.put source detail report, _) :: past =>
    if (source, detail) = topic then some report else lastPut? topic past
  | (.get _ _, _) :: past => lastPut? topic past
  | (.clear, _) :: _ => none

/-- What was used after the last use of a text and a level of detail. -/
def usedSince (past : MemoryLog) (topic : String × Detail) : Finset (String × Detail) :=
  (past.used.takeWhile (· ≠ topic)).toFinset

/-- The report that was put last, unless too much else was used since its own last use. -/
def recent? (past : MemoryLog) (capacity : Nat) (topic : String × Detail) : Option Report :=
  if (past.usedSince topic).card < capacity then lastPut? topic past else none

/-- The history with one more call. Only a get is answered. -/
def record (capacity : Nat) (past : MemoryLog) : MemoryCall → MemoryLog
  | .get source detail => (.get source detail, past.recent? capacity (source, detail)) :: past
  | call => (call, none) :: past

/-- The history of calls from an empty cache on. -/
def ofCalls (capacity : Nat) (calls : List MemoryCall) : MemoryLog := calls.foldl (record capacity) []

/-- Whether a call is a get that was answered with a report. -/
def isHit : MemoryCall × Option Report → Bool
  | (.get _ _, answer) => answer.isSome
  | _ => false

/-- Whether a call is a get that was answered with nothing. -/
def isMiss : MemoryCall × Option Report → Bool
  | (.get _ _, answer) => answer.isNone
  | _ => false

end MemoryLog

namespace Cache

/-- The answer to a call, and the cache after it. -/
def serve (c : Cache) : MemoryCall → Option Report × Cache
  | .put source detail report => (none, c.put (.of source detail) report)
  | .get source detail => c.lookup (.of source detail)
  | .clear => (none, c.clear)

/-- The answers to calls one after another, and the cache after them. -/
def serveAll (c : Cache) : List MemoryCall → List (Option Report) × Cache
  | [] => ([], c)
  | call :: calls => ((c.serve call).1 :: ((c.serve call).2.serveAll calls).1, ((c.serve call).2.serveAll calls).2)

end Cache

/-! ## The order of last use -/

namespace MemoryLog

section

variable {α : Type} [DecidableEq α] {a : α} {n : Nat} {uses : List α}

/-- What was used, each once, in the order of last use. -/
def newest : List α → List α
  | [] => []
  | a :: uses => a :: (newest uses).filter (· ≠ a)

theorem mem_newest : a ∈ newest uses ↔ a ∈ uses := by
  induction uses with
  | nil => exact Iff.rfl
  | cons b uses ih =>
    rw [newest, mem_cons, mem_cons, mem_filter, ih]
    by_cases h : a = b
    · simp [h]
    · simp [h]

theorem nodup_newest (uses : List α) : (newest uses).Nodup := by
  induction uses with
  | nil => exact nodup_nil
  | cons b uses ih =>
    rw [newest, nodup_cons]
    constructor
    · simp
    · exact ih.filter _

/-- Before `a` in the order of last use stands what was used after the last use of `a`. -/
theorem mem_takeWhile_newest {b : α} : b ∈ (newest uses).takeWhile (· ≠ a) ↔ b ∈ uses.takeWhile (· ≠ a) := by
  induction uses with
  | nil => exact Iff.rfl
  | cons c uses ih =>
    by_cases hc : c = a
    · simp [newest, hc]
    · -- The entry of `c` that is moved to the front does not stop the run up to `a`.
      have hrun (l : List α) : (l.filter (· ≠ c)).takeWhile (· ≠ a) = (l.takeWhile (· ≠ a)).filter (· ≠ c) := by
        induction l with
        | nil => rfl
        | cons d l ihl =>
          by_cases hd : d = c
          · simpa [hd, hc] using ihl
          · by_cases ha : d = a
            · simp [ha, Ne.symm hc]
            · simpa [hd, ha] using ihl
      rw [newest, takeWhile_cons_of_pos (by simpa using hc), takeWhile_cons_of_pos (by simpa using hc), hrun,
        mem_cons, mem_cons, mem_filter, ih]
      by_cases hb : b = c
      · simp [hb]
      · simp [hb]

/-- Among the first `n` stands what fewer than `n` others stand before. -/
theorem mem_take_iff {l : List α} : a ∈ l.take n ↔ a ∈ l ∧ (l.takeWhile (· ≠ a)).length < n := by
  induction l generalizing n with
  | nil => simp
  | cons b l ih =>
    cases n with
    | zero => simp
    | succ n =>
      by_cases hb : b = a
      · simp [hb]
      · simp [hb, Ne.symm hb, ih]

/-- There is room for what fewer than `n` others were used after. -/
theorem mem_take_newest_iff : a ∈ (newest uses).take n ↔ a ∈ uses ∧ (uses.takeWhile (· ≠ a)).toFinset.card < n := by
  have hsame : (uses.takeWhile (· ≠ a)).toFinset = ((newest uses).takeWhile (· ≠ a)).toFinset := by
    ext b
    rw [mem_toFinset, mem_toFinset, mem_takeWhile_newest]
  have hnodup : ((newest uses).takeWhile (· ≠ a)).Nodup := (nodup_newest uses).sublist (takeWhile_sublist _)
  rw [mem_take_iff, mem_newest, hsame, toFinset_card_of_nodup hnodup]

/-- What there was no room for does not come back when something else is used. -/
theorem take_move (a : α) (n : Nat) {l : List α} (h : l.Nodup) :
    (a :: (l.take n).filter (· ≠ a)).take n = (a :: l.filter (· ≠ a)).take n := by
  cases n with
  | zero => rfl
  | succ n =>
    rw [take_succ_cons, take_succ_cons]
    congr 1
    induction l generalizing n with
    | nil => rfl
    | cons b l ih =>
      obtain ⟨hb, hl⟩ := nodup_cons.mp h
      by_cases hba : b = a
      · -- Behind the old entry of `a` nothing else goes.
        have hkeep {k : List α} (hk : k ⊆ l) : k.filter (· ≠ a) = k := by
          apply filter_eq_self.mpr
          intro c hc
          have hne : c ≠ a := fun heq => hb (hba ▸ heq ▸ hk hc)
          simpa using hne
        rw [take_succ_cons, filter_cons_of_neg (by simpa using hba), filter_cons_of_neg (by simpa using hba),
          hkeep (take_subset n l), hkeep (fun _ hc => hc), take_take, Nat.min_self]
      · cases n with
        | zero => rfl
        | succ n => simpa [hba] using ih hl n

end

/-! ## Memory in step with the history -/

/-- What was put last was used. -/
theorem mem_used_of_lastPut? {past : MemoryLog} {topic : String × Detail} {report : Report}
    (h : lastPut? topic past = some report) : topic ∈ past.used := by
  induction past with
  | nil => simp [lastPut?] at h
  | cons step past ih =>
    rcases step with ⟨call, answer⟩
    cases call with
    | put source detail report' =>
      rw [lastPut?] at h
      split at h
      · rename_i hsame
        exact hsame ▸ mem_cons_self
      · exact mem_cons_of_mem _ (ih h)
    | get source detail =>
      cases answer with
      | none => exact ih h
      | some report' => exact mem_cons_of_mem _ (ih h)
    | clear => simp [lastPut?] at h

end MemoryLog

namespace Cache

open MemoryLog

/-- The key of a text and a level of detail. -/
def keyOf (topic : String × Detail) : CacheKey := .of topic.1 topic.2

/-- Memory has what was used last, in the order of last use, each with the report that was put last. -/
structure Recalls (sources : List String) (capacity : Nat) (past : MemoryLog) (c : Cache) : Prop where
  store : c.store = none
  room : c.capacity = capacity
  topics : ∀ topic ∈ past.used, topic.1 ∈ sources
  entries : c.entries.reverse.map (fun e => (e.1, some e.2))
    = ((newest past.used).take capacity).map fun topic => (keyOf topic, lastPut? topic past)
  hits : c.hits = past.countP isHit
  misses : c.misses = past.countP isMiss

variable {sources : List String} {capacity : Nat} {past : MemoryLog} {c : Cache}

theorem recalls_start (sources : List String) (capacity : Nat) :
    Recalls sources capacity [] (.ofStore capacity none) where
  store := rfl
  room := rfl
  topics := fun _ h => absurd h not_mem_nil
  entries := by simp [ofStore, MemoryLog.used, newest]
  hits := rfl
  misses := rfl

/-- An entry that is remembered goes to the front, before the first entries of the other keys. -/
theorem reverse_entries_remember (c : Cache) (key : CacheKey) (report : Report) :
    (c.remember key report).entries.reverse
      = ((key, report) :: c.entries.reverse.filter (fun e => e.1 ≠ key)).take c.capacity := by
  unfold remember
  rw [reverse_drop]
  simp only [reverse_append, reverse_singleton, singleton_append, filter_reverse]
  rw [take_eq_take_iff]
  simp
  omega

namespace Recalls

variable (h : Recalls sources capacity past c)
  (hdigest : ∀ s ∈ sources, ∀ t ∈ sources, Digest.ofText s = Digest.ofText t → s = t)

include hdigest in
/-- Keys tell the texts of the session apart. -/
theorem keyOf_inj {topic other : String × Detail} (htopic : topic.1 ∈ sources) (hother : other.1 ∈ sources) :
    keyOf topic = keyOf other ↔ topic = other := by
  constructor
  · intro h
    obtain ⟨htext, hdetail⟩ := CacheKey.mk.inj h
    exact Prod.ext (hdigest _ htopic _ hother htext) hdetail
  · exact congrArg keyOf

include h

theorem size_le : c.size ≤ capacity := by
  have hlength := congrArg List.length h.entries
  simp only [length_map, length_reverse, length_take] at hlength
  unfold size
  omega

include hdigest

/-- Memory has under the key of a text what the history says. -/
theorem known? (topic : String × Detail) (htopic : topic.1 ∈ sources) :
    c.known? (keyOf topic) = past.recent? capacity topic := by
  have hknown : c.known? (keyOf topic) = c.held? (keyOf topic) := by simp [Cache.known?, h.store]
  rw [hknown]
  -- There is room for what was used last, and for nothing else.
  have hroom (other : String × Detail) : other ∈ (newest past.used).take capacity ↔
      other ∈ past.used ∧ (past.usedSince other).card < capacity := mem_take_newest_iff
  cases hheld : c.held? (keyOf topic) with
  | some report =>
    have hmem : (keyOf topic, some report) ∈ c.entries.reverse.map (fun e => (e.1, some e.2)) :=
      mem_map.mpr ⟨_, mem_reverse.mpr (mem_of_held? hheld), rfl⟩
    rw [h.entries] at hmem
    obtain ⟨other, hother, heq⟩ := mem_map.mp hmem
    obtain ⟨hkey, hreport⟩ := Prod.mk.inj heq
    obtain ⟨hused, hfew⟩ := (hroom other).mp hother
    obtain rfl := (keyOf_inj hdigest (h.topics other hused) htopic).mp hkey
    rw [recent?, if_pos hfew, hreport]
  | none =>
    rw [recent?]
    split
    · rename_i hfew
      cases hput : lastPut? topic past with
      | none => rfl
      | some report =>
        exfalso
        have hfirst : topic ∈ (newest past.used).take capacity := (hroom topic).mpr ⟨mem_used_of_lastPut? hput, hfew⟩
        have hmem : (keyOf topic, lastPut? topic past) ∈ c.entries.reverse.map fun e => (e.1, some e.2) := by
          rw [h.entries]
          exact mem_map.mpr ⟨topic, hfirst, rfl⟩
        obtain ⟨e, he, heq⟩ := mem_map.mp hmem
        have hnone := Table.find?_eq_none_iff.mp hheld
        exact hnone (mem_map.mpr ⟨e, mem_reverse.mp he, (Prod.mk.inj heq).1⟩)
    · rfl

/-- A use of a text brings its report to the front of memory, where `past'` is the history after it. -/
theorem entries_remember (topic : String × Detail) (report : Report) (past' : MemoryLog) (htopic : topic.1 ∈ sources)
    (hused : past'.used = topic :: past.used) (hput : lastPut? topic past' = some report)
    (hother : ∀ other ≠ topic, lastPut? other past' = lastPut? other past) :
    (c.remember (keyOf topic) report).entries.reverse.map (fun e => (e.1, some e.2))
      = ((newest past'.used).take capacity).map fun topic => (keyOf topic, lastPut? topic past') := by
  have hrest : (c.entries.reverse.filter fun e => e.1 ≠ keyOf topic).map (fun e => (e.1, some e.2))
      = (((newest past.used).take capacity).filter (· ≠ topic)).map
        fun topic => (keyOf topic, lastPut? topic past') := by
    have hfilter := congrArg (List.filter fun e => e.1 ≠ keyOf topic) h.entries
    rw [filter_map, filter_map] at hfilter
    simp only [Function.comp_def] at hfilter
    have hsame : ((newest past.used).take capacity).filter (fun other => decide (keyOf other ≠ keyOf topic))
        = ((newest past.used).take capacity).filter (· ≠ topic) := by
      apply filter_congr
      intro other hmem
      have hin : other ∈ past.used := mem_newest.mp (mem_of_mem_take hmem)
      simp [keyOf_inj hdigest (h.topics other hin) htopic]
    rw [hfilter, hsame]
    apply map_congr_left
    intro other hmem
    have hne : other ≠ topic := by simpa using (mem_filter.mp hmem).2
    rw [hother other hne]
  rw [reverse_entries_remember, h.room, map_take, map_cons, hrest, ← hput, hused, newest]
  rw [← take_move topic capacity (nodup_newest past.used), map_take, map_cons]

/-- A call is answered as the history says, and afterwards memory is in step with the history after it. -/
theorem serve {call : MemoryCall} (hcall : ∀ source ∈ call.source?, source ∈ sources) :
    ∃ answer, past.record capacity call = (call, answer) :: past ∧ (c.serve call).1 = answer
      ∧ Recalls sources capacity (past.record capacity call) (c.serve call).2 := by
  cases call with
  | put source detail report =>
    have hsource : source ∈ sources := hcall source rfl
    have hentries := h.entries_remember hdigest (source, detail) report ((.put source detail report, none) :: past)
      hsource rfl (if_pos rfl) fun other hne => if_neg (Ne.symm hne)
    refine ⟨none, rfl, rfl, ?_⟩
    exact {
      store := by
        show c.store.map _ = none
        rw [h.store, Option.map_none]
      room := h.room
      topics := forall_mem_cons.mpr ⟨hsource, h.topics⟩
      entries := hentries
      hits := h.hits
      misses := h.misses }
  | get source detail =>
    have hsource : source ∈ sources := hcall source rfl
    have hknown := h.known? hdigest (source, detail) hsource
    cases hrecent : past.recent? capacity (source, detail) with
    | none =>
      have hrecord : past.record capacity (.get source detail) = (.get source detail, none) :: past := by
        rw [record, hrecent]
      have hlookup := lookup_of_none (hknown.trans hrecent)
      refine ⟨none, hrecord, congrArg Prod.fst hlookup, ?_⟩
      rw [hrecord]
      show Recalls sources capacity _ (c.lookup (keyOf (source, detail))).2
      rw [hlookup]
      exact {
        store := h.store
        room := h.room
        topics := h.topics
        entries := h.entries
        hits := h.hits
        misses := by
          rw [countP_cons_of_pos rfl, ← h.misses] }
    | some report =>
      have hrecord : past.record capacity (.get source detail) = (.get source detail, some report) :: past := by
        rw [record, hrecent]
      have hput : lastPut? (source, detail) past = some report := by
        rw [recent?] at hrecent
        split at hrecent
        · exact hrecent
        · simp at hrecent
      have hentries := h.entries_remember hdigest (source, detail) report ((.get source detail, some report) :: past)
        hsource rfl hput fun _ _ => rfl
      have hlookup := lookup_of_some (hknown.trans hrecent)
      refine ⟨some report, hrecord, congrArg Prod.fst hlookup, ?_⟩
      rw [hrecord]
      show Recalls sources capacity _ (c.lookup (keyOf (source, detail))).2
      rw [hlookup]
      exact {
        store := h.store
        room := h.room
        topics := forall_mem_cons.mpr ⟨hsource, h.topics⟩
        entries := hentries
        hits := by
          rw [countP_cons_of_pos rfl, ← h.hits]
        misses := h.misses }
  | clear =>
    refine ⟨none, rfl, rfl, ?_⟩
    exact {
      store := by
        show c.store.map _ = none
        rw [h.store, Option.map_none]
      room := h.room
      topics := fun _ hmem => absurd hmem not_mem_nil
      entries := by simp [Cache.serve, Cache.clear, record, used, newest]
      hits := h.hits
      misses := h.misses }

/-- Calls are answered as the history says, from any point of a session on. -/
theorem serveAll {calls : List MemoryCall} (hcalls : ∀ call ∈ calls, ∀ source ∈ call.source?, source ∈ sources) :
    (calls.foldl (record capacity) past).map (·.2) = (c.serveAll calls).1.reverse ++ past.map (·.2)
      ∧ Recalls sources capacity (calls.foldl (record capacity) past) (c.serveAll calls).2 := by
  induction calls generalizing past c with
  | nil => exact ⟨rfl, h⟩
  | cons call calls ih =>
    rcases h.serve hdigest (hcalls call mem_cons_self) with ⟨answer, hrecord, hanswer, hafter⟩
    rcases ih hafter fun other hother => hcalls other (mem_cons_of_mem _ hother) with ⟨hanswers, hlast⟩
    refine ⟨?_, hlast⟩
    rw [foldl_cons, hanswers, hrecord, map_cons, Cache.serveAll, reverse_cons, hanswer]
    simp

end Recalls

/-- Memory keeps what was used last. A cache of any capacity without a store is put reports into, asked and emptied in
any order. A get is answered with the report that was put last since the cache was emptied, if fewer other texts and
levels than the capacity were put or given back after the last use of its own, and otherwise with nothing. There is
never more in memory than the capacity, and hits and misses count the gets that were answered with a report and with
nothing. The digests must tell the texts apart. -/
theorem serveAll_recent (capacity : Nat) (calls : List MemoryCall)
    (hdigest : ∀ s ∈ calls.filterMap MemoryCall.source?, ∀ t ∈ calls.filterMap MemoryCall.source?,
      Digest.ofText s = Digest.ofText t → s = t) :
    (serveAll (.ofStore capacity none) calls).1 = (MemoryLog.ofCalls capacity calls).reverse.map (·.2)
    ∧ (serveAll (.ofStore capacity none) calls).2.size ≤ capacity
    ∧ (serveAll (.ofStore capacity none) calls).2.hits = (MemoryLog.ofCalls capacity calls).countP isHit
    ∧ (serveAll (.ofStore capacity none) calls).2.misses = (MemoryLog.ofCalls capacity calls).countP isMiss := by
  have hcalls : ∀ call ∈ calls, ∀ source ∈ call.source?, source ∈ calls.filterMap MemoryCall.source? :=
    fun call hcall source hsource => mem_filterMap.mpr ⟨call, hcall, hsource⟩
  rcases (recalls_start _ capacity).serveAll hdigest hcalls with ⟨hanswers, hrecalls⟩
  refine ⟨?_, hrecalls.size_le, hrecalls.hits, hrecalls.misses⟩
  rw [map_reverse, MemoryLog.ofCalls, hanswers]
  simp

/-- Two reports change places in the order of use before a third one comes, one of them is put again, and in the end all
are forgotten. -/
def reusedCalls : List MemoryCall :=
  let first : Report := ⟨true, [], [], none, none⟩
  let second : Report := ⟨false, [], [], none, none⟩
  [.put "process=_;" .basic first, .put "process=_;" .full second, .get "process=_;" .basic,
    .put "process=!;" .basic second, .get "process=_;" .full, .get "process=_;" .basic,
    .put "process=_;" .basic second, .get "process=_;" .basic, .clear, .get "process=_;" .basic]

/-- With room for two reports, `reusedCalls` get the first report twice, then the second one, which was put over it. The
report that was used longest ago is forgotten for the third one. -/
theorem serveAll_recent_reused :
    (∀ s ∈ reusedCalls.filterMap MemoryCall.source?, ∀ t ∈ reusedCalls.filterMap MemoryCall.source?,
      Digest.ofText s = Digest.ofText t → s = t)
    ∧ (serveAll (.ofStore 2 none) reusedCalls).1.map (Option.map Report.valid)
      = [none, none, some true, none, none, some true, none, some false, none, none]
    ∧ (serveAll (.ofStore 2 none) reusedCalls).2.size ≤ 2
    ∧ (serveAll (.ofStore 2 none) reusedCalls).2.hits = 3 ∧ (serveAll (.ofStore 2 none) reusedCalls).2.misses = 2 := by
  have hdigest : ∀ s ∈ reusedCalls.filterMap MemoryCall.source?, ∀ t ∈ reusedCalls.filterMap MemoryCall.source?,
      Digest.ofText s = Digest.ofText t → s = t := by decide +kernel
  rcases serveAll_recent 2 reusedCalls hdigest with ⟨hanswers, hsize, hhits, hmisses⟩
  refine ⟨hdigest, ?_, hsize, ?_, ?_⟩
  · rw [hanswers]
    decide +kernel
  · rw [hhits]
    decide +kernel
  · rw [hmisses]
    decide +kernel

end Cache

end Patchbay
