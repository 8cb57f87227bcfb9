import IterativeDns.Proofs.Cache.History
import Mathlib.Algebra.GroupWithZero.Nat
import Mathlib.Data.List.Dedup

/-!
# The accounts of a cache

A cache counts the records that come and go and the readings that show something or nothing. The
counts are kept in different places of different operations; this module says that they agree with
each other and with what the cache holds.

* Every use of a cache comes down to deeds of three kinds: one record is added, the expired records
  are evicted, or one question is read (`run_eq_acts`). The nameservers of a question, for one, are
  found by reading zone after zone until something is shown (`bestNameservers_eq_readAll`).
* An `Occasion` is a deed together with the cache it was done to, so that it can be said of it
  whether it took the place of an older copy, how much it removed and whether it was a hit.
* `Balance` says what occasions do to the counts. It holds of every single act (`balance_act`) and
  of acts one after the other (`balance_acts`).

**After any uses of an empty cache, whenever they happened, the records added are those that are
held, those that were evicted and those that took the place of an older copy**
(`accounts_are_exact`).
-/

namespace IterativeDns.Cache

/-! ### What is held -/

theorem WellFormed.nodup_identities {c : Cache} (hc : c.WellFormed) :
    (c.records.map Record.identity).Nodup := by
  obtain ⟨es, counters⟩ := c
  obtain ⟨hkeys, howned, -⟩ := hc
  show ((es.flatMap fun e => e.records.toList).map Record.identity).Nodup
  dsimp only at hkeys howned
  induction es with
  | nil => exact List.nodup_nil
  | cons e es ih =>
    rw [List.map_cons, List.nodup_cons] at hkeys
    rw [List.forall_mem_cons] at howned
    rw [List.flatMap_cons, List.map_append, List.nodup_append]
    refine ⟨e.records.distinct, ih hkeys.2 howned.2, ?_⟩
    intro a ha b hb hab
    obtain ⟨x, hx, rfl⟩ := List.mem_map.1 ha
    obtain ⟨y, hy, rfl⟩ := List.mem_map.1 hb
    obtain ⟨d, hd, hyd⟩ := List.mem_flatMap.1 hy
    -- records with one identity are kept under one key, and no two entries have the same
    apply hkeys.1
    rw [← howned.1 x hx, Record.key_eq_of_identity_eq hab, howned.2 d hd y hyd]
    exact List.mem_map_of_mem hd

theorem any_sameAs_iff {rs : List Record} {r : Record} :
    rs.any (·.sameAs r) = true ↔ r.identity ∈ rs.map Record.identity := by
  simp [Record.sameAs_iff]

theorem WellFormed.mem_identities_add {c : Cache} (hc : c.WellFormed) {r : Record}
    {i : (List Char × RecordType × RecordClass) × Rdata} :
    i ∈ (c.add r).records.map Record.identity ↔
      i = r.identity ∨ i ∈ c.records.map Record.identity := by
  simp only [List.mem_map, hc.mem_records_add]
  constructor
  · intro h
    obtain ⟨x, rfl | ⟨hx, -⟩, rfl⟩ := h
    · exact .inl rfl
    · exact .inr ⟨x, hx, rfl⟩
  · intro h
    by_cases hi : i = r.identity
    · exact ⟨r, .inl rfl, hi.symm⟩
    · obtain ⟨x, hx, rfl⟩ := h.resolve_left hi
      exact ⟨x, .inr ⟨hx, hi⟩, rfl⟩

/-- Adding makes one record more, unless it takes the place of an older copy. -/
theorem WellFormed.recordCount_add {c : Cache} (hc : c.WellFormed) (r : Record) :
    (c.add r).recordCount + (c.records.any (·.sameAs r)).toNat = c.recordCount + 1 := by
  -- counted by their identities, which are different ones before and after
  have hnew := (hc.add r).nodup_identities
  have hold := hc.nodup_identities
  have hcount : ∀ d : Cache, d.recordCount = (d.records.map Record.identity).length := by
    simp [recordCount]
  rw [hcount, hcount]
  cases hany : c.records.any (·.sameAs r) with
  | true =>
    have hin := any_sameAs_iff.1 hany
    have hperm : ((c.add r).records.map Record.identity).Perm (c.records.map Record.identity) :=
      (List.perm_ext_iff_of_nodup hnew hold).2 fun i => by
        rw [hc.mem_identities_add, or_iff_right_of_imp]
        intro hi
        rwa [hi]
    rw [hperm.length_eq]
    rfl
  | false =>
    have hout : r.identity ∉ c.records.map Record.identity := by
      rw [← any_sameAs_iff, hany]
      exact Bool.false_ne_true
    have hperm : ((c.add r).records.map Record.identity).Perm
        (r.identity :: c.records.map Record.identity) :=
      (List.perm_ext_iff_of_nodup hnew (List.nodup_cons.2 ⟨hout, hold⟩)).2 fun i => by
        rw [hc.mem_identities_add, List.mem_cons]
    rw [hperm.length_eq]
    rfl

/-- Evicting keeps the records that are still good, in their order. -/
theorem records_evictExpired (c : Cache) (now : Instant) :
    (c.evictExpired now).2.records = c.records.filter fun r => !r.isExpired now := by
  show (unexpired now c.entries).flatMap (fun e => e.records.toList) = _
  rw [records, unexpired]
  induction c.entries with
  | nil => rfl
  | cons e es ih =>
    rw [List.map_cons, List.filter_cons, List.flatMap_cons, List.filter_append, ← ih]
    split
    · rfl
    · next hempty =>
      have hnone : (e.records.toList.filter fun r => !r.isExpired now) = [] := by
        simpa [RecordSet.isEmpty] using hempty
      rw [hnone, List.nil_append]

/-- Every record has expired or is still good. -/
theorem countP_isExpired_add_length_filter (rs : List Record) (now : Instant) :
    (rs.countP fun r => r.isExpired now) + (rs.filter fun r => !r.isExpired now).length =
      rs.length := by
  rw [List.countP_eq_length_filter,
    List.length_eq_length_filter_add (l := rs) fun r => r.isExpired now]

theorem recordCount_evictExpired (c : Cache) (now : Instant) :
    (c.records.countP fun r => r.isExpired now) + (c.evictExpired now).2.recordCount =
      c.recordCount := by
  rw [recordCount, records_evictExpired, countP_isExpired_add_length_filter, recordCount]

/-- Evicting tells how many of the records held have expired. -/
theorem fst_evictExpired (c : Cache) (now : Instant) :
    (c.evictExpired now).1 = c.records.countP fun r => r.isExpired now := by
  show expiredCount now c.entries = _
  rw [records]
  induction c.entries with
  | nil => rfl
  | cons e es ih =>
    have hentry : e.records.toList.length -
        (e.records.filter fun r => !r.isExpired now).toList.length =
          e.records.toList.countP fun r => r.isExpired now :=
      Nat.sub_eq_of_eq_add (countP_isExpired_add_length_filter e.records.toList now).symm
    rw [expiredCount, List.flatMap_cons, List.countP_append, hentry, ih]

/-- There are as many entries as there are questions, letter case aside, of records. -/
theorem WellFormed.size_eq {c : Cache} (hc : c.WellFormed) :
    c.size = (c.records.map fun r => r.question.key).dedup.length := by
  have hperm : (c.records.map fun r => r.question.key).dedup.Perm
      (c.entries.map fun e => e.question.key) := by
    rw [List.perm_ext_iff_of_nodup (List.nodup_dedup _) hc.keys]
    intro k
    simp only [List.mem_dedup, List.mem_map, mem_records]
    constructor
    · intro h
      obtain ⟨r, ⟨e, he, hr⟩, rfl⟩ := h
      exact ⟨e, he, (hc.owned e he r hr).symm⟩
    · intro h
      obtain ⟨e, he, rfl⟩ := h
      obtain ⟨r, hr⟩ := RecordSet.isEmpty_eq_false_iff.1 (hc.inhabited e he)
      exact ⟨r, ⟨e, he, hr⟩, hc.owned e he r hr⟩
  rw [hperm.length_eq, List.length_map, size]

theorem WellFormed.isEmpty_iff {c : Cache} (hc : c.WellFormed) :
    c.isEmpty = true ↔ c.recordCount = 0 := by
  rw [isEmpty, List.isEmpty_iff, recordCount, List.length_eq_zero_iff, records,
    List.flatMap_eq_nil_iff]
  constructor
  · intro h
    simp [h]
  · intro h
    rw [List.eq_nil_iff_forall_not_mem]
    intro e he
    have hfull := hc.inhabited e he
    simp [RecordSet.isEmpty, h e he] at hfull

/-! ### Uses as deeds -/

/-- What a use of a cache comes down to. -/
inductive Deed where
  | add (r : Record)
  | evict
  | get (q : Question)

/-- A deed and when it is done. -/
structure Act where
  instant : Instant
  deed : Deed

/-- The cache after an act. -/
def act (c : Cache) (a : Act) : Cache :=
  match a.deed with
  | .add r => c.add r
  | .evict => (c.evictExpired a.instant).2
  | .get q => (c.get a.instant q).2

/-- The cache after acts, one after the other. -/
def acts (c : Cache) (as : List Act) : Cache :=
  as.foldl act c

@[simp] theorem acts_nil (c : Cache) : c.acts [] = c := rfl

@[simp] theorem acts_cons (c : Cache) (a : Act) (as : List Act) :
    c.acts (a :: as) = (c.act a).acts as := rfl

theorem acts_append (c : Cache) (as later : List Act) :
    c.acts (as ++ later) = (c.acts as).acts later :=
  List.foldl_append

/-- What is shown under questions that are read one after the other, and the cache after that. -/
def readAll (now : Instant) : List Question → Cache → List RecordSet × Cache
  | [], c => ([], c)
  | q :: qs, c =>
    let (found, c) := c.get now q
    let (more, c) := readAll now qs c
    (found :: more, c)

/-- The questions for the nameservers of some zones, up to the first that shows any. -/
def questionsUntilShown (c : Cache) (now : Instant) (recordClass : RecordClass) :
    List String → List Question
  | [] => []
  | zone :: zones =>
    let q := .ofText zone .ns recordClass
    if (c.live now q).isEmpty then q :: questionsUntilShown c now recordClass zones else [q]

theorem questionsUntilShown_congr {c d : Cache} (h : c.entries = d.entries) (now : Instant)
    (recordClass : RecordClass) (zones : List String) :
    c.questionsUntilShown now recordClass zones = d.questionsUntilShown now recordClass zones := by
  induction zones with
  | nil => rfl
  | cons zone zones ih => simp only [questionsUntilShown, live_congr h, ih]

theorem firstDelegation_eq_readAll (now : Instant) (recordClass : RecordClass)
    (zones : List String) (c : Cache) :
    firstDelegation now recordClass zones c =
      let (shown, after) := readAll now (c.questionsUntilShown now recordClass zones) c
      (byTarget (shown.getLastD .empty).toList, after) := by
  induction zones generalizing c with
  | nil => simp [firstDelegation, questionsUntilShown, readAll, byTarget]
  | cons zone zones ih =>
    rw [firstDelegation_cons, questionsUntilShown]
    dsimp only
    split
    · next hempty =>
      have hnone : c.live now (.ofText zone .ns recordClass) = .empty :=
        RecordSet.ext (List.isEmpty_iff.1 hempty)
      rw [ih, questionsUntilShown_congr (entries_get c now _)]
      simp only [readAll, fst_get, hnone, List.getLastD_cons]
    · rfl

/-- The nameservers of a question are what is shown last when its zones are read until one shows
any. -/
theorem bestNameservers_eq_readAll (c : Cache) (now : Instant) (q : Question) :
    c.bestNameservers now q =
      let (shown, after) := readAll now (c.questionsUntilShown now q.recordClass q.zones) c
      (byTarget (shown.getLastD .empty).toList, after) :=
  firstDelegation_eq_readAll now q.recordClass q.zones c

theorem collectAddresses_eq_readAll (now : Instant) (qs : List Question) (found : RecordSet)
    (c : Cache) :
    collectAddresses now qs found c =
      let (shown, after) := readAll now qs c
      (found.insertAll (shown.flatMap fun s => byAddress s.toList), after) := by
  induction qs generalizing found c with
  | nil => rfl
  | cons q qs ih =>
    rw [collectAddresses]
    dsimp only
    rw [ih]
    simp [readAll, RecordSet.insertAll, List.foldl_append]

/-- The addresses of some nameservers are what is shown when every address question is read. -/
theorem knownAddresses_eq_readAll (c : Cache) (now : Instant) (nameservers : List Record)
    (useIpv6 : Bool) :
    c.knownAddresses now nameservers useIpv6 =
      let (shown, after) := readAll now (nameservers.flatMap (addressQuestions useIpv6)) c
      (RecordSet.empty.insertAll (shown.flatMap fun s => byAddress s.toList), after) :=
  collectAddresses_eq_readAll now _ .empty c

/-- The acts an event comes down to. -/
def actsOf (c : Cache) (e : Event) : List Act :=
  let deeds : List Deed := match e.use with
    | .add r => [.add r]
    | .seed hints => (hints.flatMap RootHint.toRecords).map .add
    | .evict => [.evict]
    | .get q => [.get q]
    | .bestNameservers q =>
      (c.questionsUntilShown e.instant q.recordClass q.zones).map .get
    | .knownAddresses nameservers useIpv6 =>
      (nameservers.flatMap (addressQuestions useIpv6)).map .get
  deeds.map (Act.mk e.instant)

/-- The acts that events come down to, in order. -/
def actsOfAll : Cache → List Event → List Act
  | _, [] => []
  | c, e :: events => c.actsOf e ++ actsOfAll (c.perform e) events

theorem acts_get (c : Cache) (now : Instant) (qs : List Question) :
    c.acts ((qs.map Deed.get).map (Act.mk now)) = (readAll now qs c).2 := by
  induction qs generalizing c with
  | nil => rfl
  | cons q qs ih => exact ih (c.get now q).2

theorem acts_add (c : Cache) (now : Instant) (rs : List Record) :
    c.acts ((rs.map Deed.add).map (Act.mk now)) = c.addAll rs := by
  induction rs generalizing c with
  | nil => rfl
  | cons r rs ih => exact ih (c.add r)

theorem perform_eq_acts (c : Cache) (e : Event) : c.perform e = c.acts (c.actsOf e) := by
  obtain ⟨now, use⟩ := e
  cases use with
  | add r => rfl
  | seed hints => exact (acts_add c now _).symm
  | evict => rfl
  | get q => rfl
  | bestNameservers q =>
    show (c.bestNameservers now q).2 = c.acts (((questionsUntilShown ..).map .get).map (Act.mk now))
    rw [acts_get, bestNameservers_eq_readAll]
  | knownAddresses nameservers useIpv6 =>
    show (c.knownAddresses now nameservers useIpv6).2 =
      c.acts (((List.flatMap ..).map .get).map (Act.mk now))
    rw [acts_get, knownAddresses_eq_readAll]

theorem run_eq_acts (c : Cache) (events : List Event) :
    c.run events = c.acts (actsOfAll c events) := by
  induction events generalizing c with
  | nil => rfl
  | cons e events ih => rw [run_cons, ih, actsOfAll, acts_append, perform_eq_acts]

/-! ### Occasions -/

/-- An act and the cache before it. -/
structure Occasion where
  before : Cache
  act : Act

namespace Occasion

/-- A record is added. -/
def isAddition (o : Occasion) : Bool :=
  match o.act.deed with
  | .add _ => true
  | _ => false

/-- A record is added in place of an older copy. -/
def isReplacement (o : Occasion) : Bool :=
  match o.act.deed with
  | .add r => o.before.records.any (·.sameAs r)
  | _ => false

/-- A question is read. -/
def isReading (o : Occasion) : Bool :=
  match o.act.deed with
  | .get _ => true
  | _ => false

/-- A question is read and some record is shown. -/
def isHit (o : Occasion) : Bool :=
  match o.act.deed with
  | .get q => !(o.before.get o.act.instant q).1.isEmpty
  | _ => false

/-- What eviction tells to have removed. -/
def removed (o : Occasion) : Nat :=
  match o.act.deed with
  | .evict => (o.before.evictExpired o.act.instant).1
  | _ => 0

end Occasion

/-- The occasions of acts, one after the other. -/
def occasions : Cache → List Act → List Occasion
  | _, [] => []
  | c, a :: as => ⟨c, a⟩ :: occasions (c.act a) as

/-! ### Balances -/

/-- What the counts of a cache were, and what they are after some occasions. -/
structure Balance (c d : Cache) (log : List Occasion) : Prop where
  insertions : d.counters.insertions = c.counters.insertions + log.countP (·.isAddition)
  records : d.recordCount + (log.map Occasion.removed).sum + log.countP (·.isReplacement) =
    c.recordCount + log.countP (·.isAddition)
  evictions : d.counters.evictions = c.counters.evictions + (log.map Occasion.removed).sum
  hits : d.counters.hits = c.counters.hits + log.countP (·.isHit)
  readings : d.counters.hits + d.counters.misses =
    c.counters.hits + c.counters.misses + log.countP (·.isReading)

theorem Balance.refl (c : Cache) : Balance c c [] :=
  ⟨rfl, rfl, rfl, rfl, rfl⟩

theorem Balance.append {b c d : Cache} {log later : List Occasion} (h : Balance b c log)
    (h' : Balance c d later) : Balance b d (log ++ later) := by
  obtain ⟨hi, hr, he, hh, hg⟩ := h
  obtain ⟨hi', hr', he', hh', hg'⟩ := h'
  constructor <;> simp only [List.countP_append, List.map_append, List.sum_append] <;> omega

theorem WellFormed.act {c : Cache} (hc : c.WellFormed) (a : Act) : (c.act a).WellFormed := by
  obtain ⟨now, deed⟩ := a
  cases deed with
  | add r => exact hc.add r
  | evict => exact hc.evictExpired now
  | get q => exact hc.congr (entries_get c now q)

/-- Every act leaves the accounts in balance. -/
theorem WellFormed.balance_act {c : Cache} (hc : c.WellFormed) (a : Act) :
    Balance c (c.act a) [⟨c, a⟩] := by
  obtain ⟨now, deed⟩ := a
  cases deed with
  | add r =>
    refine ⟨rfl, ?_, rfl, rfl, rfl⟩
    have hcount := hc.recordCount_add r
    show (c.add r).recordCount + 0 + _ = c.recordCount + 1
    rw [← hcount, List.countP_singleton]
    cases h : c.records.any (·.sameAs r) <;> simp [Occasion.isReplacement, h]
  | evict =>
    refine ⟨rfl, ?_, rfl, rfl, rfl⟩
    have hcount := recordCount_evictExpired c now
    rw [← fst_evictExpired] at hcount
    show (c.evictExpired now).2.recordCount + ((c.evictExpired now).1 + 0) + 0 = c.recordCount + 0
    omega
  | get q =>
    have hhit : Occasion.isHit ⟨c, now, .get q⟩ = !(c.live now q).isEmpty := rfl
    cases h : (c.live now q).isEmpty with
    | true =>
      have hafter : c.act ⟨now, .get q⟩ = { c with counters.misses := c.counters.misses + 1 } := by
        simp [Cache.act, get, countReading, h]
      rw [hafter]
      exact ⟨rfl, rfl, rfl, by simp [hhit, h], rfl⟩
    | false =>
      have hafter : c.act ⟨now, .get q⟩ = { c with counters.hits := c.counters.hits + 1 } := by
        simp [Cache.act, get, countReading, h]
      rw [hafter]
      exact ⟨rfl, rfl, rfl, by simp [hhit, h], Nat.add_right_comm ..⟩

theorem WellFormed.balance_acts {c : Cache} (hc : c.WellFormed) (as : List Act) :
    Balance c (c.acts as) (occasions c as) := by
  induction as generalizing c with
  | nil => exact .refl c
  | cons a as ih => exact (hc.balance_act a).append (ih (hc.act a))

/-- After any uses of an empty cache its counts agree with what was done to it and with what it
holds. What was done is taken deed by deed: the log has an occasion for every record added, every
eviction and every question read, also where one use reads several. -/
theorem accounts_are_exact (events : List Event) :
    let c := run {} events
    let done := actsOfAll {} events
    let log := occasions {} done
    c = acts {} done ∧
    c.counters.insertions = log.countP (·.isAddition) ∧
    c.counters.insertions = c.recordCount + c.counters.evictions + log.countP (·.isReplacement) ∧
    c.counters.evictions = (log.map Occasion.removed).sum ∧
    (∀ now, (c.evictExpired now).1 + (c.evictExpired now).2.recordCount = c.recordCount ∧
      ∀ r ∈ (c.evictExpired now).2.records, r.isExpired now = false) ∧
    c.counters.hits = log.countP (·.isHit) ∧
    c.counters.hits + c.counters.misses = log.countP (·.isReading) ∧
    (c.entries.map fun e => e.question.key).Nodup ∧
    (∀ e ∈ c.entries, (∃ r, r ∈ e.records) ∧ ∀ r ∈ e.records, r.question.key = e.question.key) ∧
    c.size = (c.records.map fun r => r.question.key).dedup.length ∧
    (c.isEmpty = true ↔ c.recordCount = 0) := by
  intro c done log
  have hc : c.WellFormed := wellFormed_empty.run events
  have hdone : c = acts {} done := run_eq_acts {} events
  have hbalance : Balance {} c log := hdone ▸ wellFormed_empty.balance_acts done
  obtain ⟨hinsertions, hrecords, hevictions, hhits, hreadings⟩ := hbalance
  have hzero : recordCount {} = 0 := rfl
  dsimp only at hinsertions hevictions hhits hreadings
  refine ⟨hdone, by omega, by omega, by omega, ?_, by omega, by omega, hc.keys, ?_, hc.size_eq,
    hc.isEmpty_iff⟩
  · intro now
    rw [fst_evictExpired]
    exact ⟨recordCount_evictExpired c now, fun r hr => (mem_records_evictExpired.1 hr).2⟩
  · intro e he
    exact ⟨RecordSet.isEmpty_eq_false_iff.1 (hc.inhabited e he), hc.owned e he⟩

end IterativeDns.Cache
