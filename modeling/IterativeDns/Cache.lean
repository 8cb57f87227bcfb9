import IterativeDns.Record.Set
import IterativeDns.Text.Precision

/-!
# The record cache

Records are kept under the question they answer. A record that is learned again takes the place
of the older copy, whatever the expiry of either. Expired records stay where they are; reading
does not show them, and only `evictExpired` removes them.

* `live` is the view of the cache: the records that answer a question at an instant.
* `get` is `live` plus the count of a hit or a miss; no reading changes anything but counters.
* `add` and `evictExpired` are the only operations that change what is kept.

Every function that depends on time takes the present instant.
-/

namespace IterativeDns

/-- The records kept under one question. -/
structure CacheEntry where
  question : Question
  records : RecordSet

/-- What a cache has counted since it was made. -/
structure CacheCounters where
  /-- Readings that showed at least one record. -/
  hits : Nat := 0
  /-- Readings that showed none. -/
  misses : Nat := 0
  /-- Records added, those in place of an older copy included. -/
  insertions : Nat := 0
  evictions : Nat := 0
deriving DecidableEq, Repr

/-- The share of hits among all readings in per cent, with six decimal places. Both the share and
the hundredfold of it are kept to the precision of a fraction. -/
def CacheCounters.hitRate (c : CacheCounters) : String :=
  let readings := c.hits + c.misses
  if c.hits = 0 then Text.fixedPoint 6 0 1
  else
    let (share, shareUnit) := Text.nearestFraction c.hits readings
    let (percent, percentUnit) := Text.nearestFraction (100 * share) shareUnit
    Text.fixedPoint 6 percent percentUnit

/-- Records by question, in the order in which the questions first came. -/
structure Cache where
  entries : List CacheEntry := []
  counters : CacheCounters := {}

instance : Inhabited Cache := ⟨{}⟩

namespace Cache

/-! ### Reading -/

/-- Every record that is kept, expired or not. -/
def records (c : Cache) : List Record :=
  c.entries.flatMap fun e => e.records.toList

/-- The number of questions with records. -/
def size (c : Cache) : Nat :=
  c.entries.length

def recordCount (c : Cache) : Nat :=
  c.records.length

def isEmpty (c : Cache) : Bool :=
  c.entries.isEmpty

/-- The records kept under a question. -/
def stored (c : Cache) (q : Question) : RecordSet :=
  match c.entries.find? fun e => e.question.sameAs q with
  | some e => e.records
  | none => .empty

/-- The records that answer a question and have not expired. -/
def live (c : Cache) (now : Instant) (q : Question) : RecordSet :=
  (c.stored q).filter fun r => !r.isExpired now

/-- The cache after a reading that showed something, or nothing. -/
def countReading (c : Cache) (hit : Bool) : Cache :=
  if hit then { c with counters.hits := c.counters.hits + 1 }
  else { c with counters.misses := c.counters.misses + 1 }

/-- Reads the records that answer a question and counts the reading. -/
def get (c : Cache) (now : Instant) (q : Question) : RecordSet × Cache :=
  let found := c.live now q
  (found, c.countReading !found.isEmpty)

/-! ### Adding and removing -/

/-- Puts a record under its question. -/
def addTo (r : Record) : List CacheEntry → List CacheEntry
  | [] => [⟨r.question, RecordSet.empty.insert r⟩]
  | e :: es =>
    if e.question.sameAs r.question then { e with records := e.records.replace r } :: es
    else e :: addTo r es

/-- Keeps a record, in place of an older copy of it if there is one. -/
def add (c : Cache) (r : Record) : Cache where
  entries := addTo r c.entries
  counters := { c.counters with insertions := c.counters.insertions + 1 }

/-- Keeps the records of a list, front to back. -/
def addAll (c : Cache) (rs : List Record) : Cache :=
  rs.foldl add c

/-- The entries without their expired records, and without those that then have none. -/
def unexpired (now : Instant) (entries : List CacheEntry) : List CacheEntry :=
  (entries.map fun e => { e with records := e.records.filter fun r => !r.isExpired now }).filter
    fun e => !e.records.isEmpty

/-- By how many records the entries get smaller, one after the other, when the expired ones go. -/
def expiredCount (now : Instant) : List CacheEntry → Nat
  | [] => 0
  | e :: es =>
    let kept := e.records.filter fun r => !r.isExpired now
    e.records.toList.length - kept.toList.length + expiredCount now es

/-- Removes every expired record and tells how many there were. -/
def evictExpired (c : Cache) (now : Instant) : Nat × Cache :=
  let removed := expiredCount now c.entries
  (removed,
    { entries := unexpired now c.entries
      counters := { c.counters with evictions := c.counters.evictions + removed } })

/-! ### What the operations leave alone -/

@[simp] theorem entries_countReading (c : Cache) (hit : Bool) :
    (c.countReading hit).entries = c.entries := by
  cases hit <;> rfl

@[simp] theorem entries_get (c : Cache) (now : Instant) (q : Question) :
    (c.get now q).2.entries = c.entries := by
  simp [get]

@[simp] theorem fst_get (c : Cache) (now : Instant) (q : Question) :
    (c.get now q).1 = c.live now q := rfl

theorem live_congr {c d : Cache} (h : c.entries = d.entries) (now : Instant) (q : Question) :
    c.live now q = d.live now q := by
  simp [live, stored, h]

end Cache

end IterativeDns
