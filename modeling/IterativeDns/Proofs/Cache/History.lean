import IterativeDns.Cache.Nameservers
import IterativeDns.Cache.RootHints
import Mathlib.Data.List.Nodup

/-!
# The history of a cache

A cache is only ever changed by its own operations, so what it holds is decided by the list of
its uses. This module says how.

* `WellFormed` is what every use preserves: each question has one entry, which is not empty and
  holds records of that question and no others.
* `added` lists the records a history has added, and `latest?` picks the copy of a record that
  was added last.

**What a cache shows at an instant is, of every record it was ever given, the copy given last,
if that copy is still good** (`mem_live_run`). Nothing is assumed about the order of the uses or
about the instants at which records were evicted, except that none of them is still to come.
-/

namespace IterativeDns.Cache

/-! ### Well-formed caches -/

/-- The entries are as adding and evicting leave them. -/
structure WellFormed (c : Cache) : Prop where
  keys : (c.entries.map fun e => e.question.key).Nodup
  owned : ∀ e ∈ c.entries, ∀ r ∈ e.records, r.question.key = e.question.key
  inhabited : ∀ e ∈ c.entries, e.records.isEmpty = false

theorem wellFormed_empty : WellFormed {} :=
  ⟨List.nodup_nil, by simp, by simp⟩

/-- Only the entries matter, not what has been counted. -/
theorem WellFormed.congr {c d : Cache} (hc : c.WellFormed) (h : d.entries = c.entries) :
    d.WellFormed := by
  obtain ⟨hkeys, howned, hinhabited⟩ := hc
  exact ⟨h ▸ hkeys, h ▸ howned, h ▸ hinhabited⟩

theorem mem_records {c : Cache} {r : Record} :
    r ∈ c.records ↔ ∃ e ∈ c.entries, r ∈ e.records := by
  simp [records]

theorem records_congr {c d : Cache} (h : d.entries = c.entries) : d.records = c.records := by
  rw [records, records, h]

/-- The records stored under a question are the records of the cache that have its key. -/
theorem WellFormed.mem_stored {c : Cache} (hc : c.WellFormed) {q : Question} {r : Record} :
    r ∈ c.stored q ↔ r ∈ c.records ∧ r.question.key = q.key := by
  rw [mem_records, stored]
  cases hfind : c.entries.find? fun e => e.question.sameAs q with
  | none =>
    constructor
    · intro hr
      cases hr
    · intro h
      obtain ⟨⟨e, he, hr⟩, hq⟩ := h
      have hno := List.find?_eq_none.1 hfind e he
      rw [Question.sameAs_iff, ← hc.owned e he r hr] at hno
      exact absurd hq hno
  | some e =>
    have he := List.mem_of_find?_eq_some hfind
    have hkey : e.question.key = q.key :=
      Question.sameAs_iff.1 (List.find?_some (p := fun d : CacheEntry => d.question.sameAs q) hfind)
    constructor
    · intro hr
      exact ⟨⟨e, he, hr⟩, (hc.owned e he r hr).trans hkey⟩
    · intro h
      obtain ⟨⟨e', he', hr⟩, hq⟩ := h
      -- a second entry with the key would be the same entry
      have hsame : e'.question.key = e.question.key := by
        rw [← hc.owned e' he' r hr, hq, hkey]
      obtain rfl := List.inj_on_of_nodup_map hc.keys he' he hsame
      exact hr

theorem WellFormed.mem_live {c : Cache} (hc : c.WellFormed) {now : Instant} {q : Question}
    {r : Record} :
    r ∈ c.live now q ↔
      r ∈ c.records ∧ r.question.key = q.key ∧ r.isExpired now = false := by
  rw [live, RecordSet.mem_filter, hc.mem_stored, Bool.not_eq_true', and_assoc]

/-! ### Adding -/

/-- Adding gives a question an entry only if it has none. -/
theorem keys_addTo (r : Record) (es : List CacheEntry) :
    (addTo r es).map (fun e => e.question.key) = es.map (fun e => e.question.key) ∨
      r.question.key ∉ es.map (fun e => e.question.key) ∧
        (addTo r es).map (fun e => e.question.key) =
          es.map (fun e => e.question.key) ++ [r.question.key] := by
  induction es with
  | nil => exact .inr ⟨List.not_mem_nil, rfl⟩
  | cons e es ih =>
    rw [addTo]
    by_cases h : e.question.sameAs r.question = true
    · rw [if_pos h]
      exact .inl rfl
    · rw [if_neg h]
      have hne : r.question.key ≠ e.question.key := fun hk => h (Question.sameAs_iff.2 hk.symm)
      rcases ih with ih | ⟨hno, ih⟩
      · exact .inl (by rw [List.map_cons, ih, List.map_cons])
      · refine .inr ⟨?_, by rw [List.map_cons, ih, List.map_cons, List.cons_append]⟩
        rw [List.map_cons, List.mem_cons, not_or]
        exact ⟨hne, hno⟩

theorem forall_addTo {p : CacheEntry → Prop} {r : Record} {es : List CacheEntry}
    (hes : ∀ e ∈ es, p e) (hnew : p ⟨r.question, RecordSet.empty.insert r⟩)
    (hold : ∀ e ∈ es, e.question.sameAs r.question = true →
      p { e with records := e.records.replace r }) :
    ∀ e ∈ addTo r es, p e := by
  induction es with
  | nil =>
    intro e he
    rw [addTo, List.mem_singleton] at he
    exact he ▸ hnew
  | cons d es ih =>
    simp only [List.forall_mem_cons] at hes hold
    rw [addTo]
    by_cases h : d.question.sameAs r.question = true
    · rw [if_pos h, List.forall_mem_cons]
      exact ⟨hold.1 h, hes.2⟩
    · rw [if_neg h, List.forall_mem_cons]
      exact ⟨hes.1, ih hes.2 hold.2⟩

theorem mem_empty_insert {r x : Record} : x ∈ RecordSet.empty.insert r ↔ x = r := by
  rw [RecordSet.mem_insert]
  constructor
  · intro h
    rcases h with h | ⟨h, -⟩
    · cases h
    · exact h
  · intro h
    exact .inr ⟨h, rfl⟩

theorem WellFormed.add {c : Cache} (hc : c.WellFormed) (r : Record) : (c.add r).WellFormed where
  keys := by
    show ((addTo r c.entries).map fun e => e.question.key).Nodup
    rcases keys_addTo r c.entries with h | ⟨hno, h⟩
    · rw [h]
      exact hc.keys
    · rw [h, List.nodup_append]
      refine ⟨hc.keys, List.nodup_singleton _, ?_⟩
      intro a ha b hb
      rw [List.mem_singleton.1 hb]
      exact fun hab => hno (hab ▸ ha)
  owned := by
    apply forall_addTo hc.owned
    · intro x hx
      rw [mem_empty_insert.1 hx]
    · intro e he hsame x hx
      rcases RecordSet.mem_replace.1 hx with rfl | ⟨hx, -⟩
      · exact (Question.sameAs_iff.1 hsame).symm
      · exact hc.owned e he x hx
  inhabited := by
    apply forall_addTo hc.inhabited
    · exact RecordSet.isEmpty_eq_false_iff.2 ⟨r, mem_empty_insert.2 rfl⟩
    · intro e _ _
      exact RecordSet.isEmpty_eq_false_iff.2 ⟨r, RecordSet.mem_replace.2 (.inl rfl)⟩

/-- The two fields of well-formedness make the entries of different questions disjoint, so that
replacing a copy in one of them leaves no other copy behind. -/
theorem mem_addTo {r x : Record} {es : List CacheEntry}
    (hkeys : (es.map fun e => e.question.key).Nodup)
    (howned : ∀ e ∈ es, ∀ y ∈ e.records, y.question.key = e.question.key) :
    (∃ e ∈ addTo r es, x ∈ e.records) ↔
      x = r ∨ (∃ e ∈ es, x ∈ e.records) ∧ x.identity ≠ r.identity := by
  induction es with
  | nil => simp [addTo, mem_empty_insert]
  | cons e es ih =>
    simp only [List.map_cons, List.nodup_cons, List.forall_mem_cons] at hkeys howned
    rw [addTo]
    by_cases h : e.question.sameAs r.question = true
    · have hsame := Question.sameAs_iff.1 h
      -- no copy hides in the other entries: their keys are different ones
      have hrest : (∃ d ∈ es, x ∈ d.records) → x.identity ≠ r.identity := by
        rintro ⟨d, hd, hx⟩ hi
        apply hkeys.1
        rw [hsame, ← Record.key_eq_of_identity_eq hi]
        exact List.mem_map.2 ⟨d, hd, (howned.2 d hd x hx).symm⟩
      simp only [if_pos h, List.exists_mem_cons_iff, RecordSet.mem_replace]
      grind
    · have hfirst : x ∈ e.records → x.identity ≠ r.identity := by
        intro hx hi
        apply h
        rw [Question.sameAs_iff, ← howned.1 x hx]
        exact Record.key_eq_of_identity_eq hi
      simp only [if_neg h, List.exists_mem_cons_iff, ih hkeys.2 howned.2]
      grind

/-- What is added takes the place of the older copy and of nothing else. -/
theorem WellFormed.mem_records_add {c : Cache} (hc : c.WellFormed) {r x : Record} :
    x ∈ (c.add r).records ↔ x = r ∨ x ∈ c.records ∧ x.identity ≠ r.identity := by
  rw [mem_records, mem_records]
  exact mem_addTo hc.keys hc.owned

theorem WellFormed.addAll {c : Cache} (hc : c.WellFormed) (rs : List Record) :
    (c.addAll rs).WellFormed := by
  induction rs generalizing c with
  | nil => exact hc
  | cons r rs ih => exact ih (hc.add r)

/-! ### Evicting -/

@[simp] theorem entries_evictExpired (c : Cache) (now : Instant) :
    (c.evictExpired now).2.entries = unexpired now c.entries := rfl

theorem mem_unexpired {now : Instant} {es : List CacheEntry} {e : CacheEntry} :
    e ∈ unexpired now es ↔
      (∃ d ∈ es, { d with records := d.records.filter fun r => !r.isExpired now } = e) ∧
        e.records.isEmpty = false := by
  rw [unexpired, List.mem_filter, List.mem_map, Bool.not_eq_true']

theorem WellFormed.evictExpired {c : Cache} (hc : c.WellFormed) (now : Instant) :
    (c.evictExpired now).2.WellFormed where
  keys := by
    have hsub : ((unexpired now c.entries).map fun e => e.question.key).Sublist
        (c.entries.map fun e => e.question.key) := by
      have h := (List.filter_sublist (p := fun e : CacheEntry => !e.records.isEmpty)
        (l := c.entries.map fun e =>
          { e with records := e.records.filter fun r => !r.isExpired now })).map
        (fun e => e.question.key)
      rwa [List.map_map] at h
    exact hsub.nodup hc.keys
  owned := by
    intro e he r hr
    obtain ⟨⟨d, hd, rfl⟩, -⟩ := mem_unexpired.1 he
    exact hc.owned d hd r (RecordSet.mem_filter.1 hr).1
  inhabited := fun e he => (mem_unexpired.1 he).2

theorem mem_records_evictExpired {c : Cache} {now : Instant} {r : Record} :
    r ∈ (c.evictExpired now).2.records ↔ r ∈ c.records ∧ r.isExpired now = false := by
  rw [mem_records, mem_records, entries_evictExpired]
  constructor
  · intro h
    obtain ⟨e, he, hr⟩ := h
    obtain ⟨⟨d, hd, rfl⟩, -⟩ := mem_unexpired.1 he
    obtain ⟨hr, hgood⟩ := RecordSet.mem_filter.1 hr
    exact ⟨⟨d, hd, hr⟩, by simpa using hgood⟩
  · intro h
    obtain ⟨⟨d, hd, hr⟩, hgood⟩ := h
    have hr' : r ∈ d.records.filter fun r => !r.isExpired now :=
      RecordSet.mem_filter.2 ⟨hr, by simpa using hgood⟩
    exact ⟨_, mem_unexpired.2 ⟨⟨d, hd, rfl⟩, RecordSet.isEmpty_eq_false_iff.2 ⟨r, hr'⟩⟩, hr'⟩

/-! ### Histories -/

/-- A use of a cache. -/
inductive Use where
  | add (r : Record)
  | seed (hints : List RootHint)
  | evict
  | get (q : Question)
  | bestNameservers (q : Question)
  | knownAddresses (nameservers : List Record) (useIpv6 : Bool)

/-- The records a use adds, in order. -/
def Use.added : Use → List Record
  | .add r => [r]
  | .seed hints => hints.flatMap RootHint.toRecords
  | _ => []

/-- A use and when it happens. -/
structure Event where
  instant : Instant
  use : Use

/-- The cache after an event. -/
def perform (c : Cache) (e : Event) : Cache :=
  match e.use with
  | .add r => c.add r
  | .seed hints => c.seed hints
  | .evict => (c.evictExpired e.instant).2
  | .get q => (c.get e.instant q).2
  | .bestNameservers q => (c.bestNameservers e.instant q).2
  | .knownAddresses nameservers useIpv6 => (c.knownAddresses e.instant nameservers useIpv6).2

/-- The cache after events, one after the other. -/
def run (c : Cache) (events : List Event) : Cache :=
  events.foldl perform c

/-- The records events add, in order. -/
def added (events : List Event) : List Record :=
  events.flatMap fun e => e.use.added

@[simp] theorem run_nil (c : Cache) : c.run [] = c := rfl

@[simp] theorem run_cons (c : Cache) (e : Event) (events : List Event) :
    c.run (e :: events) = (c.perform e).run events := rfl

@[simp] theorem added_cons (e : Event) (events : List Event) :
    added (e :: events) = e.use.added ++ added events := rfl

theorem run_append (c : Cache) (events later : List Event) :
    c.run (events ++ later) = (c.run events).run later :=
  List.foldl_append

theorem added_append (events later : List Event) :
    added (events ++ later) = added events ++ added later :=
  List.flatMap_append

/-- An event adds, evicts, or leaves the entries alone. -/
theorem perform_cases (c : Cache) (e : Event) :
    c.perform e = c.addAll e.use.added ∨
      (e.use.added = [] ∧ c.perform e = (c.evictExpired e.instant).2) ∨
      (e.use.added = [] ∧ (c.perform e).entries = c.entries) := by
  obtain ⟨t, use⟩ := e
  cases use with
  | add r => exact .inl rfl
  | seed hints => exact .inl rfl
  | evict => exact .inr (.inl ⟨rfl, rfl⟩)
  | get q => exact .inr (.inr ⟨rfl, entries_get ..⟩)
  | bestNameservers q => exact .inr (.inr ⟨rfl, entries_bestNameservers ..⟩)
  | knownAddresses ns useIpv6 => exact .inr (.inr ⟨rfl, entries_knownAddresses ..⟩)

theorem WellFormed.perform {c : Cache} (hc : c.WellFormed) (e : Event) :
    (c.perform e).WellFormed := by
  rcases perform_cases c e with h | ⟨-, h⟩ | ⟨-, h⟩
  · exact h ▸ hc.addAll _
  · exact h ▸ hc.evictExpired _
  · exact hc.congr h

theorem WellFormed.run {c : Cache} (hc : c.WellFormed) (events : List Event) :
    (c.run events).WellFormed := by
  induction events generalizing c with
  | nil => exact hc
  | cons e events ih => exact ih (hc.perform e)

/-! ### The latest copies -/

/-- The copy of a record that was added last. -/
def latest? (log : List Record) (r : Record) : Option Record :=
  log.reverse.find? (·.sameAs r)

@[simp] theorem latest?_nil (r : Record) : latest? [] r = none := rfl

theorem latest?_concat (log : List Record) (x r : Record) :
    latest? (log ++ [x]) r = if x.sameAs r then some x else latest? log r := by
  rw [latest?, List.reverse_concat, List.find?_cons]
  cases x.sameAs r <;> rfl

theorem latest?_append (log later : List Record) (r : Record) :
    latest? (log ++ later) r = (latest? later r).or (latest? log r) := by
  rw [latest?, List.reverse_append, List.find?_append]
  rfl

theorem latest?_congr {a b : Record} (log : List Record) (h : a.identity = b.identity) :
    latest? log a = latest? log b := by
  simp only [latest?, Record.sameAs, h]

theorem identity_of_latest? {log : List Record} {r x : Record} (h : latest? log r = some x) :
    x.identity = r.identity :=
  Record.sameAs_iff.1 (List.find?_some (p := fun y : Record => y.sameAs r) h)

theorem mem_of_latest? {log : List Record} {r x : Record} (h : latest? log r = some x) :
    x ∈ log :=
  List.mem_reverse.1 (List.mem_of_find?_eq_some h)

/-- A record that was added has a latest copy. -/
theorem exists_latest? {log : List Record} {r : Record} (h : r ∈ log) :
    ∃ x, latest? log r = some x := by
  rw [← Option.isSome_iff_exists, latest?, List.find?_isSome]
  exact ⟨r, List.mem_reverse.2 h, Record.sameAs_iff.2 rfl⟩

/-- Of the records added the last copies are held, and of the others what was held before. -/
theorem WellFormed.mem_records_addAll {c : Cache} (hc : c.WellFormed) {rs : List Record}
    {x : Record} :
    x ∈ (c.addAll rs).records ↔
      latest? rs x = some x ∨ latest? rs x = none ∧ x ∈ c.records := by
  induction rs generalizing c with
  | nil => simp [Cache.addAll]
  | cons r rs ih =>
    have hcons : latest? (r :: rs) x = (latest? rs x).or (latest? [r] x) :=
      latest?_append [r] rs x
    have hone : latest? [r] x = if r.sameAs x then some r else none :=
      latest?_concat [] r x
    have hadd : x ∈ (c.addAll (r :: rs)).records ↔
        latest? rs x = some x ∨ latest? rs x = none ∧ x ∈ (c.add r).records := ih (hc.add r)
    rw [hadd, hc.mem_records_add, hcons, hone]
    cases hlatest : latest? rs x with
    | some y => simp
    | none =>
      by_cases hrx : r.sameAs x = true
      · have hi := Record.sameAs_iff.1 hrx
        simp [hrx, hi, eq_comm]
      · have hne : x.identity ≠ r.identity := fun hi => hrx (Record.sameAs_iff.2 hi.symm)
        have hxr : x ≠ r := fun hx => hne (congrArg Record.identity hx)
        simp [hrx, hne, hxr]

/-! ### What a cache remembers -/

/-- Of the records that are good at an instant, a cache holds the copies that were added last. -/
def Remembers (now : Instant) (log : List Record) (c : Cache) : Prop :=
  ∀ r : Record, r.isExpired now = false → (r ∈ c.records ↔ latest? log r = some r)

theorem remembers_empty (now : Instant) : Remembers now [] {} := by
  intro r _
  simp [records]

theorem Remembers.congr {now : Instant} {log : List Record} {c d : Cache}
    (h : Remembers now log c) (hd : d.entries = c.entries) : Remembers now log d := by
  intro r hr
  rw [records_congr hd]
  exact h r hr

theorem Remembers.add {now : Instant} {log : List Record} {c : Cache} (hc : c.WellFormed)
    (h : Remembers now log c) (r : Record) : Remembers now (log ++ [r]) (c.add r) := by
  intro x hx
  rw [hc.mem_records_add, h x hx, latest?_concat]
  by_cases hrx : r.sameAs x = true
  · -- a copy of the record added is shown only if it is the record itself
    have hi := Record.sameAs_iff.1 hrx
    rw [if_pos hrx, Option.some.injEq]
    constructor
    · intro h
      rcases h with hxr | ⟨-, hne⟩
      · exact hxr.symm
      · exact absurd hi.symm hne
    · exact fun hr => .inl hr.symm
  · have hne : x.identity ≠ r.identity := fun hi => hrx (Record.sameAs_iff.2 hi.symm)
    rw [if_neg hrx]
    constructor
    · intro h
      rcases h with rfl | ⟨hl, -⟩
      · exact absurd rfl hne
      · exact hl
    · exact fun hl => .inr ⟨hl, hne⟩

theorem Remembers.addAll {now : Instant} {log : List Record} {c : Cache} (hc : c.WellFormed)
    (h : Remembers now log c) (rs : List Record) : Remembers now (log ++ rs) (c.addAll rs) := by
  induction rs generalizing log c with
  | nil => rwa [List.append_nil]
  | cons r rs ih =>
    have := ih (hc.add r) (h.add hc r)
    rwa [List.append_assoc] at this

/-- A record that is still good has not expired before. -/
theorem isExpired_of_le {r : Record} {t now : Instant} (hle : t ≤ now)
    (h : r.isExpired now = false) : r.isExpired t = false := by
  cases hr : r.expires with
  | none => simp only [Record.isExpired, hr]
  | some expires =>
    simp only [Record.isExpired, hr, decide_eq_false_iff_not] at h ⊢
    exact fun he => h (Int.le_trans he hle)

/-- Evicting at an instant that has passed removes nothing that is still good. -/
theorem Remembers.evictExpired {now t : Instant} {log : List Record} {c : Cache}
    (h : Remembers now log c) (hle : t ≤ now) : Remembers now log (c.evictExpired t).2 := by
  intro r hr
  rw [mem_records_evictExpired, and_iff_left (isExpired_of_le hle hr)]
  exact h r hr

theorem Remembers.perform {now : Instant} {log : List Record} {c : Cache} (hc : c.WellFormed)
    (h : Remembers now log c) {e : Event} (hle : e.instant ≤ now) :
    Remembers now (log ++ e.use.added) (c.perform e) := by
  rcases perform_cases c e with hp | ⟨hno, hp⟩ | ⟨hno, hp⟩
  · rw [hp]
    exact h.addAll hc _
  · rw [hno, List.append_nil, hp]
    exact h.evictExpired hle
  · rw [hno, List.append_nil]
    exact h.congr hp

theorem Remembers.run {now : Instant} {log : List Record} {c : Cache} (hc : c.WellFormed)
    (h : Remembers now log c) {events : List Event} (hle : ∀ e ∈ events, e.instant ≤ now) :
    Remembers now (log ++ added events) (c.run events) := by
  induction events generalizing log c with
  | nil => simpa [added] using h
  | cons e events ih =>
    rw [List.forall_mem_cons] at hle
    have := ih (hc.perform e) (h.perform hc hle.1) hle.2
    rwa [List.append_assoc] at this

/-- A cache shows the copies that were added last and are still good. -/
theorem mem_live_run {events : List Event} {now : Instant} (hle : ∀ e ∈ events, e.instant ≤ now)
    (q : Question) (r : Record) :
    r ∈ (run {} events).live now q ↔
      latest? (added events) r = some r ∧ r.question.key = q.key ∧ r.isExpired now = false := by
  rw [(wellFormed_empty.run events).mem_live]
  constructor
  · intro h
    obtain ⟨hr, hq, hgood⟩ := h
    have hlog := (remembers_empty now).run wellFormed_empty hle r hgood
    exact ⟨hlog.1 hr, hq, hgood⟩
  · intro h
    obtain ⟨hr, hq, hgood⟩ := h
    have hlog := (remembers_empty now).run wellFormed_empty hle r hgood
    exact ⟨hlog.2 hr, hq, hgood⟩

end IterativeDns.Cache
