import Patchbay.Analysis
import Patchbay.Report.Document

/-!
# Remembering reports

A cache keeps reports by the digest of their text and their level of detail. In memory it keeps at most as
many as its capacity and forgets the one that was not asked for longest. A store behind it keeps the
documents of all reports; what memory has forgotten is read back from there.
-/

namespace Patchbay

/-- What a report is remembered by. -/
structure CacheKey where
  digest : String
  detail : Detail
deriving DecidableEq, Repr, Inhabited

namespace CacheKey

/-- The key of a text at a level of detail. -/
def of (source : String) (detail : Detail) : CacheKey := ⟨Digest.ofText source, detail⟩

/-- A key as text. -/
def text (key : CacheKey) : String := key.digest ++ ":" ++ key.detail.name

end CacheKey

/-! ## Stores -/

mutual

/-- A datum as a store keeps it: a float that is not finite is kept as null. -/
def Datum.stored : Datum → Datum
  | .float value => if value.isFinite then .float value else .null
  | .list items => .list (Datum.itemsStored items)
  | .record fields => .record (Datum.fieldsStored fields)
  | .null => .null
  | .bool value => .bool value
  | .int value => .int value
  | .text value => .text value

/-- Data as a store keeps them. -/
def Datum.itemsStored : List Datum → List Datum
  | [] => []
  | d :: ds => d.stored :: Datum.itemsStored ds

/-- Fields as a store keeps them. -/
def Datum.fieldsStored : List (String × Datum) → List (String × Datum)
  | [] => []
  | (name, d) :: fields => (name, d.stored) :: Datum.fieldsStored fields

end

/-- Documents of reports by their keys. -/
abbrev Store := Table CacheKey Datum

namespace Store

/-- Keeps a report. -/
def save (s : Store) (key : CacheKey) (report : Report) : Store := s.insert key report.toDatum.stored

/-- The report that was kept last under a key. -/
def load? (s : Store) (key : CacheKey) : Option Report :=
  (s.get? key).bind fun document => (Report.check document).toOption

/-- A store as one document. -/
def toDatum (s : Store) : Datum :=
  .list (s.entries.map fun (key, document) =>
    .record [("digest", .text key.digest), ("detail", .text key.detail.name), ("report", document)])

/-- A key and its document from a record. -/
def checkEntry (datum : Datum) : Checked (CacheKey × Datum) := do
  let fields ← datum.checkRecord
  let (digest, detail, document) ← Checked.zip (Datum.required "digest" Datum.checkText fields)
    (Checked.zip (Datum.required "detail" (Datum.checkNamed Detail.all Detail.name) fields)
      (Datum.required "report" .ok fields))
  return (⟨digest, detail⟩, document)

/-- A store from a document. -/
def check (datum : Datum) : Checked Store := (Datum.checkList checkEntry datum).map Table.ofList

end Store

/-! ## Caches -/

/-- How many reports a cache keeps in memory, unless told otherwise. -/
def defaultCapacity : Nat := 256

/-- Reports in memory, possibly with a store behind. -/
structure Cache where
  capacity : Nat
  /-- What is in memory, the entry that was not asked for longest first. -/
  entries : List (CacheKey × Report)
  store : Option Store
  hits : Nat
  misses : Nat
deriving Inhabited

namespace Cache

/-- A cache with nothing in memory. -/
def ofStore (capacity : Nat) (store : Option Store) : Cache := ⟨capacity, [], store, 0, 0⟩

/-- The number of reports in memory. -/
def size (c : Cache) : Nat := c.entries.length

/-- The report in memory under a key. -/
def held? (c : Cache) (key : CacheKey) : Option Report := Table.find? key c.entries

/-- Puts a report into memory as the newest entry, and forgets the oldest ones beyond the capacity. -/
def remember (c : Cache) (key : CacheKey) (report : Report) : Cache :=
  let entries := c.entries.filter (fun e => e.1 ≠ key) ++ [(key, report)]
  { c with entries := entries.drop (entries.length - c.capacity) }

/-- The report under a key, from memory or else from the store. A report that is found becomes the newest
entry. -/
def lookup (c : Cache) (key : CacheKey) : Option Report × Cache :=
  match (c.held? key).or (c.store.bind fun s => s.load? key) with
  | some report => (some report, { c.remember key report with hits := c.hits + 1 })
  | none => (none, { c with misses := c.misses + 1 })

/-- Keeps a report in memory and in the store. -/
def put (c : Cache) (key : CacheKey) (report : Report) : Cache :=
  { c.remember key report with store := c.store.map fun s => s.save key report }

/-- Forgets all reports, also those in the store. -/
def clear (c : Cache) : Cache := { c with entries := [], store := c.store.map fun _ => .empty }

/-- A new cache of the same capacity on the same store. -/
def reopen (c : Cache) : Cache := .ofStore c.capacity c.store

/-- Empties the store and leaves memory as it is. -/
def resetStore (c : Cache) : Cache := { c with store := c.store.map fun _ => .empty }

end Cache

/-- The report on a text, remembered or new. A new one is remembered, unless the time was over; a fault
leaves nothing to remember. -/
def Registry.analyzeWith (g : Registry) (c : Cache) (settings : Settings) (detail : Detail)
    (source : String) : Except Fault Report × Cache :=
  let key := CacheKey.of source detail
  match c.lookup key with
  | (some report, c) => (.ok report, c)
  | (none, c) =>
    match g.analyze settings detail source with
    | .error fault => (.error fault, c)
    | .ok report =>
      if settings.expired?.isSome then (.ok report, c) else (.ok report, c.put key report)

/-! ## Room below zero

A caller may ask for room for fewer than no reports. Such a cache is empty, and keeping a report in it is a
fault: however much is forgotten, there is still too much.
-/

/-- Keeps a report, if there is room for any number of them. -/
def Cache.putWithin (c : Cache) (room : Int) (key : CacheKey) (report : Report) : Except Fault Cache :=
  if 0 ≤ room then .ok (c.put key report) else .error .noRoom

/-- The report on a text, remembered or new, if there is room for any number of reports; without room a
new report that should be remembered is a fault. -/
def Registry.analyzeWithin (g : Registry) (room : Int) (c : Cache) (settings : Settings) (detail : Detail)
    (source : String) : Except Fault Report × Cache :=
  if 0 ≤ room then g.analyzeWith c settings detail source
  else
    let missed := (c.lookup (.of source detail)).2
    match g.analyze settings detail source with
    | .error fault => (.error fault, missed)
    | .ok report => if settings.expired?.isSome then (.ok report, missed) else (.error .noRoom, missed)

end Patchbay
