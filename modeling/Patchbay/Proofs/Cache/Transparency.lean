import Patchbay.Proofs.Cache.Memory

/-!
# A cache makes no difference

A cached analyzer is asked for reports and emptied in any order. As long as the texts have different digests, what it
answers is what an analysis gives, fault or report. What it has in memory is at any time what an analysis of some text
of the session gives, under the key of that text: hits, misses, faults and whatever is forgotten keep it so.
-/

open List

namespace Patchbay

/-- What a caller does with a cached analyzer: asks for the report on a text, at a level of detail or at that of the
settings, or empties the cache. -/
inductive CacheCall where
  | analyze (detail : Option Detail) (source : String)
  | clear

namespace CacheCall

/-- The text that is asked about. -/
def source? : CacheCall → Option String
  | .analyze _ source => some source
  | .clear => none

end CacheCall

namespace Registry

/-- The answer to a call without a cache. -/
def answer (g : Registry) (settings : Settings) : CacheCall → Option (Except Fault Report)
  | .analyze detail source => some (g.analyze settings (detail.getD settings.detail) source)
  | .clear => none

/-- The answer to a call with a cache, and the cache after it. -/
def answerWith (g : Registry) (settings : Settings) (c : Cache) :
    CacheCall → Option (Except Fault Report) × Cache
  | .analyze detail source =>
    let (answer, c) := g.analyzeWith c settings (detail.getD settings.detail) source
    (some answer, c)
  | .clear => (none, c.clear)

/-- The answers to calls one after another, each with the cache after it. -/
def session (g : Registry) (settings : Settings) : Cache → List CacheCall → List (Option (Except Fault Report) × Cache)
  | _, [] => []
  | c, call :: calls =>
    g.answerWith settings c call :: session g settings (g.answerWith settings c call).2 calls

/-- The number of reports that were asked for. -/
def asked (calls : List CacheCall) : Nat := calls.countP fun call => call.source?.isSome

variable {g : Registry} {settings : Settings} {sources : List String} {capacity count : Nat} {c : Cache}

/-! ## What a call keeps -/

/-- A cache without a store, after so many reports were asked for. What it has in memory is what an analysis gives. -/
structure Faithful (g : Registry) (settings : Settings) (sources : List String) (capacity count : Nat) (c : Cache) :
    Prop where
  store : c.store = none
  room : c.capacity = capacity
  size : c.size ≤ capacity
  counted : c.hits + c.misses = count
  fresh : ∀ e ∈ c.entries, ∃ source ∈ sources, e.1.digest = Digest.ofText source
    ∧ g.analyze settings e.1.detail source = .ok e.2

theorem faithful_start (g : Registry) (settings : Settings) (sources : List String) (capacity : Nat) :
    Faithful g settings sources capacity 0 (.ofStore capacity none) where
  store := rfl
  room := rfl
  size := Nat.zero_le capacity
  counted := rfl
  fresh := fun _ he => absurd he not_mem_nil

namespace Faithful

variable {source : String} {detail : Detail} {report : Report}

variable (h : Faithful g settings sources capacity count c)

include h

theorem clear : Faithful g settings sources capacity count c.clear where
  store := by
    unfold Cache.clear
    rw [h.store]
    rfl
  room := h.room
  size := Nat.zero_le capacity
  counted := h.counted
  fresh := fun _ he => absurd he not_mem_nil

/-- Remembering what an analysis gives keeps memory faithful. -/
theorem remember (hsource : source ∈ sources) (hreport : g.analyze settings detail source = .ok report) :
    Faithful g settings sources capacity count (c.remember (.of source detail) report) where
  store := h.store
  room := h.room
  size := by
    rw [← h.room]
    exact Cache.size_remember_le c _ report
  counted := h.counted
  fresh := by
    intro e he
    rcases Cache.mem_remember he with rfl | ⟨he, -⟩
    · exact ⟨source, hsource, rfl, hreport⟩
    · exact h.fresh e he

variable (hdigest : ∀ s ∈ sources, ∀ t ∈ sources, Digest.ofText s = Digest.ofText t → s = t)

include hdigest

/-- What is known under the key of a text is what an analysis of the text gives, if digests tell texts apart. -/
theorem analyze_of_known? (hsource : source ∈ sources)
    (hknown : c.known? (.of source detail) = some report) : g.analyze settings detail source = .ok report := by
  have hheld : c.held? (.of source detail) = some report := by
    rw [Cache.known?, h.store] at hknown
    simpa using hknown
  obtain ⟨other, hother, hsame, hanalyze⟩ := h.fresh _ (Cache.mem_of_held? hheld)
  rw [hdigest source hsource other hother hsame]
  exact hanalyze

/-- A call is answered as without a cache, and afterwards memory is faithful. -/
theorem analyzeWith (htime : settings.timeout = none) (hsource : source ∈ sources) :
    (g.analyzeWith c settings detail source).1 = g.analyze settings detail source
      ∧ Faithful g settings sources capacity (count + 1) (g.analyzeWith c settings detail source).2 := by
  unfold Registry.analyzeWith
  dsimp only
  cases hknown : c.known? (.of source detail) with
  | some report =>
    have hreport := h.analyze_of_known? hdigest hsource hknown
    have hremember := h.remember hsource hreport
    rw [Cache.lookup_of_some hknown]
    refine ⟨hreport.symm, ?_⟩
    have hcounted : c.hits + 1 + c.misses = count + 1 := by
      have := h.counted
      omega
    exact ⟨hremember.store, hremember.room, hremember.size, hcounted, hremember.fresh⟩
  | none =>
    have hmissed : Faithful g settings sources capacity (count + 1) { c with misses := c.misses + 1 } := by
      have hcounted : c.hits + (c.misses + 1) = count + 1 := by
        have := h.counted
        omega
      exact ⟨h.store, h.room, h.size, hcounted, h.fresh⟩
    rw [Cache.lookup_of_none hknown]
    cases hreport : g.analyze settings detail source with
    | error fault => exact ⟨rfl, hmissed⟩
    | ok report =>
      have hnever : settings.expired?.isSome = false := by simp [Settings.expired?, htime]
      have hremember := hmissed.remember hsource hreport
      simp only [hnever, Bool.false_eq_true, if_false, true_and]
      refine ⟨?_, hremember.room, hremember.size, hremember.counted, hremember.fresh⟩
      rw [Cache.put, show c.store = none from h.store]
      rfl

end Faithful

/-! ## Sessions -/

/-- From a faithful memory on, all calls are answered as without a cache. -/
theorem answers_session (h : Faithful g settings sources capacity count c)
    (hdigest : ∀ s ∈ sources, ∀ t ∈ sources, Digest.ofText s = Digest.ofText t → s = t)
    (htime : settings.timeout = none) {calls : List CacheCall} (hcalls : calls.filterMap CacheCall.source? ⊆ sources) :
    (g.session settings c calls).map (·.1) = calls.map (g.answer settings)
      ∧ ∀ i answer c', (g.session settings c calls)[i]? = some (answer, c') →
        Faithful g settings sources capacity (count + asked (calls.take (i + 1))) c' := by
  induction calls generalizing c count with
  | nil => exact ⟨rfl, fun i answer c' hi => absurd hi (by simp [session])⟩
  | cons call calls ih =>
    -- One call keeps memory faithful and counts if it asks for a report.
    have hstep : (g.answerWith settings c call).1 = g.answer settings call
        ∧ Faithful g settings sources capacity (count + asked [call]) (g.answerWith settings c call).2 := by
      cases call with
      | clear => exact ⟨rfl, h.clear⟩
      | analyze detail source =>
        have hsource : source ∈ sources := hcalls (by simp [CacheCall.source?])
        obtain ⟨hanswer, hafter⟩ := h.analyzeWith hdigest htime hsource
        exact ⟨congrArg some hanswer, hafter⟩
    obtain ⟨hanswer, hafter⟩ := hstep
    have hrest : calls.filterMap CacheCall.source? ⊆ sources := by
      intro source hsource
      obtain ⟨other, hother, hothersource⟩ := mem_filterMap.mp hsource
      exact hcalls (mem_filterMap.mpr ⟨other, mem_cons_of_mem _ hother, hothersource⟩)
    obtain ⟨hanswers, hlater⟩ := ih hafter hrest
    refine ⟨?_, ?_⟩
    · rw [session, map_cons, map_cons, hanswer, hanswers]
    · intro i answer c' hi
      rw [session] at hi
      cases i with
      | zero =>
        have hcache : (g.answerWith settings c call).2 = c' := congrArg Prod.snd (Option.some.inj hi)
        rw [← hcache]
        exact hafter
      | succ i =>
        have hfaithful := hlater i answer c' hi
        have hcount : count + asked ((call :: calls).take (i + 1 + 1))
            = count + asked [call] + asked (calls.take (i + 1)) := by
          rw [take_succ_cons, ← singleton_append, asked, asked, asked, countP_append, Nat.add_assoc]
        rw [hcount]
        exact hfaithful

/-- A cache in memory makes no difference. With settings that do not bound the time, and a cache of any capacity that is
empty at first, each call of a session gives the report or the fault that an analysis without a cache gives. After each
call hits and misses together are as many as the reports asked for, and there is no more in memory than the capacity.
The digests must tell the texts of the session apart. -/
theorem cache_transparent (g : Registry) (settings : Settings) (htime : settings.timeout = none) (capacity : Nat)
    (calls : List CacheCall)
    (hdigest : ∀ s ∈ calls.filterMap CacheCall.source?, ∀ t ∈ calls.filterMap CacheCall.source?,
      Digest.ofText s = Digest.ofText t → s = t) :
    (g.session settings (.ofStore capacity none) calls).map (·.1) = calls.map (g.answer settings)
    ∧ ∀ i answer c, (g.session settings (.ofStore capacity none) calls)[i]? = some (answer, c) →
      c.hits + c.misses = asked (calls.take (i + 1)) ∧ c.size ≤ capacity := by
  obtain ⟨hanswers, hfaithful⟩ := answers_session (faithful_start g settings _ capacity) hdigest htime
    (List.Subset.refl (calls.filterMap CacheCall.source?))
  refine ⟨hanswers, ?_⟩
  intro i answer c hi
  have h := hfaithful i answer c hi
  rw [Nat.zero_add] at h
  exact ⟨h.counted, h.size⟩

/-- Calls about two texts, one of which cannot be advised on, with a cache that is emptied in between. -/
def returningCalls : List CacheCall :=
  [.analyze none "process=_;", .analyze none "process=_;", .analyze (some .full) "process=_;",
    .analyze none "p=_ with\x7b", .analyze none "process=_;", .clear, .analyze (some .basic) "process=_;",
    .analyze none "process=_;"]

/-- With room for one report, `returningCalls` meet a hit, a report that is forgotten for the next one, a fault between
a miss and what would be remembered, and an emptied cache. They are answered as without a cache. -/
theorem cache_transparent_returning : Settings.standard.timeout = none
    ∧ (∀ s ∈ returningCalls.filterMap CacheCall.source?, ∀ t ∈ returningCalls.filterMap CacheCall.source?,
      Digest.ofText s = Digest.ofText t → s = t)
    ∧ (standard.session .standard (.ofStore 1 none) returningCalls).map
        (fun step => (step.2.hits, step.2.misses, step.2.size))
      = [(0, 1, 1), (1, 1, 1), (1, 2, 1), (1, 3, 1), (1, 4, 1), (1, 4, 0), (1, 5, 1), (2, 5, 1)]
    ∧ (standard.session .standard (.ofStore 1 none) returningCalls).map (·.1)
      = returningCalls.map (standard.answer .standard) := by
  have hdigest : ∀ s ∈ returningCalls.filterMap CacheCall.source?, ∀ t ∈ returningCalls.filterMap CacheCall.source?,
      Digest.ofText s = Digest.ofText t → s = t := by decide +kernel
  exact ⟨rfl, hdigest, by decide +kernel, (cache_transparent standard .standard rfl 1 returningCalls hdigest).1⟩

end Registry

end Patchbay
