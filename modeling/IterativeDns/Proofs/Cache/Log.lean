import IterativeDns.Proofs.Cache.Readings

/-!
# A cache is a log of what was added

Seen from outside a cache is the list of the records it was given: of each record it shows the
copy that was given last, as long as that copy is good. Nothing else about its history can be
told from its readings (`reads_log`).

* Evicting what has expired makes no difference to any later reading.
* Records that are no copies of each other may be added in any order.

Whoever shares a cache shares its log: the uses of several callers are one history, in the order
in which they took effect.
-/

namespace IterativeDns.Cache

/-! ### Good records -/

/-- The record is permanent, or it expires strictly after the instant. -/
def GoodAfter (now : Instant) (r : Record) : Prop :=
  r.isPermanent = true ∨ ∃ expires, r.expires = some expires ∧ now < expires

theorem goodAfter_iff {now : Instant} {r : Record} :
    GoodAfter now r ↔ r.isExpired now = false := by
  cases h : r.expires <;> simp [GoodAfter, Record.isPermanent, Record.isExpired, h]

/-! ### Logs that differ in their order -/

theorem latest?_eq_some_of_nodup {log : List Record} (h : (log.map Record.identity).Nodup)
    {r x : Record} : latest? log r = some x ↔ x ∈ log ∧ x.identity = r.identity := by
  constructor
  · exact fun hx => ⟨mem_of_latest? hx, identity_of_latest? hx⟩
  · rintro ⟨hx, hi⟩
    obtain ⟨y, hy⟩ := exists_latest? hx
    have hsame := List.inj_on_of_nodup_map h (mem_of_latest? hy) hx (identity_of_latest? hy)
    rw [← latest?_congr log hi, hy, hsame]

/-- Of records that are no copies of each other it does not matter which came last. -/
theorem latest?_perm {log log' : List Record} (hperm : log.Perm log')
    (h : (log.map Record.identity).Nodup) (r : Record) : latest? log r = latest? log' r := by
  apply Option.ext
  intro x
  rw [latest?_eq_some_of_nodup h, hperm.mem_iff,
    latest?_eq_some_of_nodup ((hperm.map _).nodup_iff.1 h)]

/-- Histories that have left the same last copies have the same readings. -/
theorem sameReadings_run {events events' : List Event} {now : Instant}
    (hle : ∀ e ∈ events, e.instant ≤ now) (hle' : ∀ e ∈ events', e.instant ≤ now)
    (h : ∀ r, latest? (added events) r = latest? (added events') r) :
    SameReadings now (run {} events) (run {} events') := by
  apply SameShown.sameReadings _ (wellFormed_empty.run events) (wellFormed_empty.run events')
  intro q r
  rw [mem_live_run hle, mem_live_run hle', h]

/-! ### Main result -/

/-- After a history, at an instant that none of its uses comes after:

* a question shows exactly those records with its key that are the last copy added and good;
* it shows no record in two copies;
* for every record that was ever added there is one last copy, and no other copy is shown;
* evictions, anywhere in the history, leave every reading as it is;
* so does another order of some uses that add no record twice. -/
theorem reads_log {events : List Event} {now : Instant} (hle : ∀ e ∈ events, e.instant ≤ now) :
    (∀ q r, r ∈ ((run {} events).get now q).1 ↔
      latest? (added events) r = some r ∧ r.question.key = q.key ∧ GoodAfter now r) ∧
    (∀ q, (((run {} events).get now q).1.toList.map Record.identity).Nodup) ∧
    (∀ r ∈ added events, ∃ last, latest? (added events) r = some last ∧
      ∀ x, x ∈ ((run {} events).get now r.question).1 ∧ x.identity = r.identity ↔
        x = last ∧ GoodAfter now last) ∧
    (∀ before later t, events = before ++ later → t ≤ now →
      SameReadings now (run {} events) (run {} (before ++ ⟨t, .evict⟩ :: later))) ∧
    (∀ before uses later uses', events = before ++ uses ++ later → uses.Perm uses' →
      ((added uses).map Record.identity).Nodup →
        SameReadings now (run {} events) (run {} (before ++ uses' ++ later))) := by
  have hshown : ∀ q r, r ∈ ((run {} events).get now q).1 ↔
      latest? (added events) r = some r ∧ r.question.key = q.key ∧ GoodAfter now r := by
    intro q r
    rw [fst_get, mem_live_run hle, goodAfter_iff]
  refine ⟨hshown, fun q => ((run {} events).live now q).distinct, ?_, ?_, ?_⟩
  · intro r hr
    obtain ⟨last, hlast⟩ := exists_latest? hr
    have hi := identity_of_latest? hlast
    refine ⟨last, hlast, ?_⟩
    intro x
    rw [hshown]
    constructor
    · rintro ⟨⟨hx, -, hgood⟩, hxr⟩
      rw [latest?_congr _ hxr, hlast, Option.some.injEq] at hx
      exact ⟨hx.symm, hx ▸ hgood⟩
    · rintro ⟨rfl, hgood⟩
      exact ⟨⟨latest?_congr (added events) hi ▸ hlast, Record.key_eq_of_identity_eq hi, hgood⟩, hi⟩
  · rintro before later t rfl ht
    apply sameReadings_run hle
    · intro e he
      rw [List.mem_append, List.mem_cons] at he
      rcases he with he | rfl | he
      · exact hle e (List.mem_append_left later he)
      · exact ht
      · exact hle e (List.mem_append_right before he)
    · -- an eviction adds nothing
      intro r
      rw [added_append, added_append, added_cons]
      rfl
  · rintro before uses later uses' rfl hperm hdistinct
    apply sameReadings_run hle
    · intro e he
      refine hle e ?_
      simp only [List.mem_append] at he ⊢
      rwa [hperm.mem_iff]
    · intro r
      have hadded : (added uses).Perm (added uses') := hperm.flatMap_right _
      simp only [added_append, latest?_append, latest?_perm hadded hdistinct]

/-- The address of `a` is told twice and the name of its server once. The older copy of the
address is never shown again, may have been evicted, and the later two records may have come in
the other order. -/
theorem address_told_twice :
    let owner : Question := .ofText "a" .a
    let old := Record.learned 0 owner 1 (.address (.ofQuad 10 0 0 1))
    let new := Record.learned 2000 (.ofText "A" .a) 60 (.address (.ofQuad 10 0 0 1))
    let server := Record.learned 2000 (.ofText "a" .ns) 60 (.name "b")
    let first : Event := ⟨0, .add old⟩
    let uses : List Event := [⟨2000, .add new⟩, ⟨2000, .add server⟩]
    let c := run {} (first :: uses)
    new ∈ (c.get 3000 owner).1 ∧ old ∉ (c.get 3000 owner).1 ∧
      SameReadings 3000 c (run {} (first :: ⟨1000, .evict⟩ :: uses)) ∧
      SameReadings 3000 c (run {} (first :: uses.reverse)) := by
  intro owner old new server first uses c
  have hle : ∀ e ∈ first :: uses, e.instant ≤ 3000 := by decide
  obtain ⟨hshown, -, -, hevict, horder⟩ := reads_log hle
  have hnew : latest? (added (first :: uses)) new = some new := by decide
  have hold : latest? (added (first :: uses)) old ≠ some old := by decide
  refine ⟨?_, ?_, ?_, ?_⟩
  · exact (hshown owner new).2 ⟨hnew, by decide, goodAfter_iff.2 (by decide)⟩
  · exact fun h => hold ((hshown owner old).1 h).1
  · exact hevict [first] uses 1000 rfl (by decide)
  · exact horder [first] uses [] uses.reverse rfl (List.reverse_perm uses).symm (by decide)

end IterativeDns.Cache
