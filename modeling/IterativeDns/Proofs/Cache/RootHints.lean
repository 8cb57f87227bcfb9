import IterativeDns.Proofs.Cache.History

/-!
# How long root hints last

Root hints are permanent, but a cache does not treat them as anything special: whoever tells it
a root nameserver again, with a time to live, puts a copy that expires in the place of the
permanent one. A hint therefore lasts exactly as long as the copies learned after it
(`root_hints_shown_iff`), and one copy that expires is enough to take the only root nameserver
away (`relearned_root_hint_is_lost`).
-/

namespace IterativeDns.Cache

/-! ### Seeded records -/

theorem isExpired_of_mem_hints {hints : List RootHint} {r : Record} (now : Instant)
    (h : r ∈ hints.flatMap RootHint.toRecords) : r.isExpired now = false := by
  obtain ⟨hint, -, hr⟩ := List.mem_flatMap.1 h
  simp only [RootHint.toRecords, List.mem_cons, List.not_mem_nil, or_false] at hr
  rcases hr with rfl | rfl <;> rfl

/-- A history with root hints in the middle of it. -/
theorem mem_live_seed {before later : List Event} {hints : List RootHint} {now : Instant}
    (hle : ∀ e ∈ before ++ later, e.instant ≤ now) (q : Question) (r : Record) :
    r ∈ (((run {} before).seed hints).run later).live now q ↔
      latest? (added before ++ hints.flatMap RootHint.toRecords ++ added later) r = some r ∧
        r.question.key = q.key ∧ r.isExpired now = false := by
  -- seeding depends on no clock, so it may as well happen now
  have hevents : ∀ e ∈ before ++ ⟨now, .seed hints⟩ :: later, e.instant ≤ now := by
    simp only [List.mem_append, List.mem_cons] at hle ⊢
    rintro e (he | rfl | he)
    · exact hle e (.inl he)
    · exact Int.le_refl now
    · exact hle e (.inr he)
  have h := mem_live_run hevents q r
  rw [run_append, added_append, added_cons, ← List.append_assoc] at h
  exact h

/-- A seeded record is shown unless a copy learned later has taken its place and has expired. -/
theorem contains_live_seed_iff {before later : List Event} {hints : List RootHint} {now : Instant}
    (hle : ∀ e ∈ before ++ later, e.instant ≤ now) {r : Record}
    (hr : r ∈ hints.flatMap RootHint.toRecords) :
    ((((run {} before).seed hints).run later).live now r.question).contains r = true ↔
      ∀ x ∈ latest? (added later) r, x.isExpired now = false := by
  have hshown : ((((run {} before).seed hints).run later).live now r.question).contains r = true ↔
      ∃ x, latest? (added before ++ hints.flatMap RootHint.toRecords ++ added later) r = some x ∧
        x.isExpired now = false := by
    rw [RecordSet.contains_iff_exists]
    constructor
    · intro h
      obtain ⟨x, hx, hi⟩ := h
      obtain ⟨hlog, -, hgood⟩ := (mem_live_seed hle _ x).1 hx
      exact ⟨x, latest?_congr _ hi ▸ hlog, hgood⟩
    · intro h
      obtain ⟨x, hlog, hgood⟩ := h
      have hi := identity_of_latest? hlog
      have hkey := Record.key_eq_of_identity_eq hi
      exact ⟨x, (mem_live_seed hle _ x).2 ⟨latest?_congr _ hi ▸ hlog, hkey, hgood⟩, hi⟩
  rw [hshown, latest?_append, latest?_append]
  cases hlater : latest? (added later) r with
  | some x => simp
  | none =>
    obtain ⟨x, hx⟩ := exists_latest? hr
    have hgood := isExpired_of_mem_hints now (mem_of_latest? hx)
    simp [hx, hgood]

/-! ### The root is the last resort of every question -/

theorem root_mem_zones (q : Question) : "" ∈ q.zones := by
  simp [Question.zones, Name.zones, Name.zoneChars]

theorem ofText_root : Question.ofText "" .ns .«in» = Question.root .ns := rfl

/-- Every question of the Internet class has nameservers as long as the root has one. -/
theorem forall_bestNameservers_ne_nil_iff {c : Cache} {now : Instant} :
    (∀ q : Question, q.recordClass = .«in» → (c.bestNameservers now q).1 ≠ []) ↔
      ∃ r, r ∈ c.live now (.root .ns) := by
  constructor
  · intro h
    obtain ⟨zone, hzone, r, hr⟩ := firstDelegation_ne_nil_iff.1 (h (.root .ns) rfl)
    have hroot : zone = "" := by
      have : (Question.root .ns).zones = [""] := by decide
      rwa [this, List.mem_singleton] at hzone
    subst hroot
    exact ⟨r, hr⟩
  · rintro ⟨r, hr⟩ q hq
    refine firstDelegation_ne_nil_iff.2 ⟨"", root_mem_zones q, r, ?_⟩
    rw [hq, ofText_root]
    exact hr

/-! ### Main results -/

/-- A seeded record is shown for its question exactly if the copy of it that was learned last
after the seeding, if there is one, is still good. Every question of the Internet class has
nameservers exactly if some record of a root nameserver has a last copy that is still good;
one hint whose nameserver record is shown is enough for that. -/
theorem root_hints_shown_iff {before later : List Event} {hints : List RootHint} {now : Instant}
    (hle : ∀ e ∈ before ++ later, e.instant ≤ now) :
    let c := ((run {} before).seed hints).run later
    let log := added before ++ hints.flatMap RootHint.toRecords ++ added later
    (∀ hint ∈ hints, ∀ r ∈ hint.toRecords,
      ((c.get now r.question).1.contains r = true ↔
        ∀ x ∈ latest? (added later) r, x.isExpired now = false)) ∧
    ((∀ q : Question, q.recordClass = .«in» → (c.bestNameservers now q).1 ≠ []) ↔
      ∃ x, latest? log x = some x ∧ x.question.key = (Question.root .ns).key ∧
        x.isExpired now = false) ∧
    (∀ hint ∈ hints, (∀ x ∈ latest? (added later) hint.nameserver, x.isExpired now = false) →
      ∀ q : Question, q.recordClass = .«in» → (c.bestNameservers now q).1 ≠ []) := by
  intro c log
  have hseeded : ∀ hint ∈ hints, ∀ r ∈ hint.toRecords,
      ((c.get now r.question).1.contains r = true ↔
        ∀ x ∈ latest? (added later) r, x.isExpired now = false) := by
    intro hint hhint r hr
    exact contains_live_seed_iff hle (List.mem_flatMap.2 ⟨hint, hhint, hr⟩)
  refine ⟨hseeded, ?_, ?_⟩
  · rw [forall_bestNameservers_ne_nil_iff]
    exact exists_congr fun x => mem_live_seed hle _ x
  · intro hint hhint hgood
    have hshown := (hseeded hint hhint hint.nameserver List.mem_cons_self).2 hgood
    obtain ⟨x, hx, -⟩ := RecordSet.contains_iff_exists.1 hshown
    exact forall_bestNameservers_ne_nil_iff.2 ⟨x, hx⟩

/-- A hint that was told again with an hour to live is shown for that hour; the address record
beside it, which nobody told again, is shown as well. -/
theorem root_hint_shown_within_hour :
    let hint : RootHint := ⟨"a.root-servers.net.", .ofQuad 198 41 0 4⟩
    let copy := Record.learned 0 (.root .ns) 3600 (.name "a.root-servers.net")
    let later : List Event := [⟨0, .add copy⟩, ⟨1000, .evict⟩]
    let c := ((run {} []).seed [hint]).run later
    (c.get 2000 hint.nameserver.question).1.contains hint.nameserver = true ∧
      (c.get 2000 hint.addressRecord.question).1.contains hint.addressRecord = true ∧
      (c.bestNameservers 2000 (.ofText "www.example.com" .a)).1 ≠ [] := by
  intro hint copy later c
  have hns : ∀ x ∈ latest? (added later) hint.nameserver, x.isExpired 2000 = false := by decide
  have haddress : ∀ x ∈ latest? (added later) hint.addressRecord, x.isExpired 2000 = false := by
    decide
  have hle : ∀ e ∈ [] ++ later, e.instant ≤ 2000 := by decide
  obtain ⟨hshown, -, hbest⟩ := @root_hints_shown_iff [] later [hint] 2000 hle
  have hhint : hint ∈ [hint] := List.mem_singleton.2 rfl
  exact ⟨(hshown hint hhint hint.nameserver List.mem_cons_self).2 hns,
    (hshown hint hhint hint.addressRecord (List.mem_cons_of_mem _ List.mem_cons_self)).2 haddress,
    hbest hint hhint hns (.ofText "www.example.com" .a) rfl⟩

/-- A copy of the only hint that was told with no time to live leaves a cache without any
nameserver, although the hint was permanent. -/
theorem relearned_root_hint_is_lost :
    let hint : RootHint := ⟨"a.root-servers.net", .ofQuad 198 41 0 4⟩
    let copy := Record.learned 0 (.root .ns) 0 (.name "a.root-servers.net")
    let c := (seed {} [hint]).run [⟨0, .add copy⟩]
    (c.get 0 (.root .ns)).1.contains hint.nameserver = false ∧
      (c.bestNameservers 0 (.ofText "www.example.com" .a)).1 = [] := by
  decide

end IterativeDns.Cache
