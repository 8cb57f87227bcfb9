import IterativeDns.Alias
import IterativeDns.Lookup
import IterativeDns.Proofs.Cache.History

/-!
# Steps of a frame

What each step of a frame can do to the cache, and how a frame depends on the way in which
nested lookups are made.

* Asking a server adds the records of its response to the cache, or nothing
  (`cache_askServer`); reading leaves the entries alone.
* Selecting servers either finds known addresses, and then nested lookups play no part, or finds
  none and hands the nameservers over to them (`selectServers_cases`).
* A frame only grows with the lookups it is given: where those have more results, it has more
  results and no others (`frame_mono`).
-/

namespace IterativeDns

/-! ### Answers -/

theorem Record.isAnswer_iff {q : Question} {r : Record} :
    r.isAnswer q = true ↔
      r.question.key = q.key ∨ r.question.key = (q.withType .cname).key := by
  rw [Record.isAnswer, Bool.or_eq_true, Record.answers_iff, Record.answers_iff]

theorem Question.isSettledBy_iff {q : Question} {rs : RecordSet} :
    q.isSettledBy rs = true ↔ ∃ r ∈ rs, r.isAnswer q = true :=
  List.any_eq_true

/-- Records that all belong to the answer settle the question unless there are none. -/
theorem Question.isEmpty_of_not_isSettledBy {q : Question} {rs : RecordSet}
    (hrs : ∀ r ∈ rs, r.isAnswer q = true) (h : ¬q.isSettledBy rs = true) : rs.isEmpty = true := by
  rw [← Bool.not_eq_false, RecordSet.isEmpty_eq_false_iff]
  rintro ⟨r, hr⟩
  exact h (Question.isSettledBy_iff.2 ⟨r, hr, hrs r hr⟩)

namespace Cache

theorem fst_answers (c : Cache) (now : Instant) (q : Question) :
    (c.answers now q).1 =
      if q.recordType = .cname then c.live now q
      else (c.live now q).union (c.live now (q.withType .cname)) := by
  simp only [answers]
  split
  · rfl
  · rw [fst_get, fst_get, live_congr (entries_get c now q)]

theorem answers_congr {c d : Cache} (h : c.entries = d.entries) (now : Instant) (q : Question) :
    (c.answers now q).1 = (d.answers now q).1 := by
  simp only [fst_answers, live_congr h]

/-- What a cache does not show it does not show later. -/
theorem live_isEmpty_of_le {c : Cache} {t now : Instant} (hle : t ≤ now) {q : Question}
    (h : (c.live t q).isEmpty = true) : (c.live now q).isEmpty = true := by
  rw [RecordSet.isEmpty_iff_not_exists] at h ⊢
  intro hex
  obtain ⟨r, hr⟩ := hex
  obtain ⟨hr, hgood⟩ := RecordSet.mem_filter.1 hr
  rw [Bool.not_eq_true'] at hgood
  exact h ⟨r, RecordSet.mem_filter.2 ⟨hr, by rw [isExpired_of_le hle hgood]; rfl⟩⟩

theorem answers_isEmpty_of_le {c : Cache} {t now : Instant} (hle : t ≤ now) {q : Question}
    (h : (c.answers t q).1.isEmpty = true) : (c.answers now q).1.isEmpty = true := by
  rw [fst_answers] at h ⊢
  split at h
  · next hcname =>
    rw [if_pos hcname]
    exact live_isEmpty_of_le hle h
  · next hcname =>
    rw [if_neg hcname, RecordSet.isEmpty_union]
    rw [RecordSet.isEmpty_union] at h
    exact ⟨live_isEmpty_of_le hle h.1, live_isEmpty_of_le hle h.2⟩

theorem WellFormed.isAnswer_of_mem_answers {c : Cache} (hc : c.WellFormed) {now : Instant}
    {q : Question} {r : Record} (h : r ∈ (c.answers now q).1) : r.isAnswer q = true := by
  rw [fst_answers] at h
  rw [Record.isAnswer_iff]
  split at h
  · exact .inl (hc.mem_live.1 h).2.1
  · rcases RecordSet.mem_of_mem_insertAll h with h | h
    · exact .inl (hc.mem_live.1 h).2.1
    · exact .inr (hc.mem_live.1 h).2.1

end Cache

/-! ### Asking a server -/

/-- The records an exchange has brought. -/
def Resolver.gained : Except Failure (Option (List Record)) → List Record
  | .ok (some records) => records
  | _ => []

namespace Session

variable {σ : Type}

@[simp] theorem fst_answers (s : Session σ) (now : Instant) (q : Question) :
    (s.answers now q).1 = (s.cache.answers now q).1 := rfl

@[simp] theorem entries_answers (s : Session σ) (now : Instant) (q : Question) :
    (s.answers now q).2.cache.entries = s.cache.entries :=
  s.cache.entries_answers now q

@[simp] theorem entries_bestNameservers (s : Session σ) (now : Instant) (q : Question) :
    (s.bestNameservers now q).2.cache.entries = s.cache.entries :=
  s.cache.entries_bestNameservers now q

@[simp] theorem entries_knownAddresses (s : Session σ) (now : Instant) (nameservers : List Record)
    (useIpv6 : Bool) :
    (s.knownAddresses now nameservers useIpv6).2.cache.entries = s.cache.entries :=
  s.cache.entries_knownAddresses now nameservers useIpv6

theorem cache_digest (s : Session σ) (server : Address) (outcome : Except Failure Reply) :
    (s.digest server outcome).2.cache =
      s.cache.addAll (Resolver.gained (s.digest server outcome).1) := by
  unfold digest
  split
  · rfl
  · rfl
  · split <;> rfl

theorem client_digest (s : Session σ) (server : Address) (outcome : Except Failure Reply) :
    (s.digest server outcome).2.client = s.client := by
  unfold digest
  split
  · rfl
  · rfl
  · split <;> rfl

end Session

namespace Resolver

variable {σ : Type} (R : Resolver σ)

/-- While a server is asked, time does not go back. -/
theorem now_le_askServer (q : Question) (server : Record) (address : Address) (s : Session σ) :
    R.now s ≤ R.now (R.askServer q server address s).2 := by
  have hclient : (R.askServer q server address s).2.client =
      (R.client.ask q address s.client).2 := Session.client_digest ..
  rw [now, now, hclient]
  exact R.client.now_le_now_ask q address s.client

/-- Asking a server puts the records it has brought into the cache and nothing else. -/
theorem cache_askServer (q : Question) (server : Record) (address : Address) (s : Session σ) :
    (R.askServer q server address s).2.cache =
      s.cache.addAll (gained (R.askServer q server address s).1) :=
  Session.cache_digest ..

/-! ### Selecting servers -/

/-- Where no address of the nameservers is known, they are looked up. -/
theorem selectServers_of_unknown {q : Question} {s : Session σ} {nameservers : List Record}
    (hbest : (s.bestNameservers (R.now s) q).1 = nameservers)
    (hknown : ((s.bestNameservers (R.now s) q).2.knownAddresses (R.now s) nameservers
      R.useIpv6).1 = []) (resolve : Look (Session σ)) :
    R.selectServers (some resolve) q s =
      (R.findAddresses resolve q.recordClass nameservers nameservers
        ((s.bestNameservers (R.now s) q).2.knownAddresses (R.now s) nameservers
          R.useIpv6).2).map fun r =>
          (r.1, r.2.record (.selected q (R.snapshot s) (R.snapshot r.2) r.1)) := by
  subst hbest
  simp only [selectServers, now_bestNameservers, hknown, List.isEmpty_nil]
  cases R.findAddresses resolve q.recordClass (s.bestNameservers (R.now s) q).1
    (s.bestNameservers (R.now s) q).1
    ((s.bestNameservers (R.now s) q).2.knownAddresses (R.now s)
      (s.bestNameservers (R.now s) q).1 R.useIpv6).2 <;> rfl

/-- Selecting servers reads the cache first. If addresses are known, these are the servers; if
not, the nameservers that were read are looked up. -/
theorem selectServers_cases (q : Question) (s : Session σ) :
    (∃ servers t, servers ≠ [] ∧ R.now t = R.now s ∧ t.cache.entries = s.cache.entries ∧
      ∀ resolve?, R.selectServers resolve? q s = some (servers, t)) ∨
    ∃ nameservers t, R.now t = R.now s ∧ t.cache.entries = s.cache.entries ∧
      R.selectServers none q s =
        some ([], t.record (.selected q (R.snapshot s) (R.snapshot t) [])) ∧
      ∀ resolve, R.selectServers (some resolve) q s =
        (R.findAddresses resolve q.recordClass nameservers nameservers t).map fun r =>
          (r.1, r.2.record (.selected q (R.snapshot s) (R.snapshot r.2) r.1)) := by
  cases hread : (s.bestNameservers (R.now s) q).2.knownAddresses (R.now s)
      (s.bestNameservers (R.now s) q).1 R.useIpv6 with
  | mk usable t =>
  -- reading counts hits and misses and changes nothing else
  have ht : t.cache.entries = s.cache.entries := by
    have := Session.entries_knownAddresses (s.bestNameservers (R.now s) q).2 (R.now s)
      (s.bestNameservers (R.now s) q).1 R.useIpv6
    rw [hread] at this
    simpa using this
  have hnow : R.now t = R.now s := congrArg (fun r => R.now r.2) hread.symm
  by_cases husable : usable = []
  · subst husable
    refine .inr ⟨(s.bestNameservers (R.now s) q).1, t, hnow, ht, ?_, ?_⟩
    · simp [selectServers, hread]
    · intro resolve
      rw [R.selectServers_of_unknown rfl (congrArg Prod.fst hread), hread]
  · refine .inl ⟨usable, t.record (.selected q (R.snapshot s) (R.snapshot t) usable), husable,
      hnow, ht, ?_⟩
    intro resolve?
    have hno : usable.isEmpty = false := List.isEmpty_eq_false_iff.2 husable
    simp [selectServers, hread, hno]

/-! ### A frame grows with its lookups -/

theorem findAddresses_mono {resolve resolve' : Look (Session σ)}
    (h : ∀ q s r, resolve q s = some r → resolve' q s = some r) {recordClass : RecordClass}
    {nameservers rest : List Record} {s : Session σ} {r : List Record × Session σ}
    (hr : R.findAddresses resolve recordClass nameservers rest s = some r) :
    R.findAddresses resolve' recordClass nameservers rest s = some r := by
  induction rest generalizing s with
  | nil => exact hr
  | cons ns rest ih =>
    simp only [findAddresses] at hr ⊢
    split
    · simp_all
    · next target htarget =>
      simp only [htarget] at hr
      split
      · next hskip =>
        rw [if_pos hskip] at hr
        exact ih hr
      · next hskip =>
        rw [if_neg hskip] at hr
        cases hres : resolve (.ofText target .a recordClass)
            (s.attempt (.ofText target .a recordClass)) with
        | none => simp [hres] at hr
        | some found =>
          rw [h _ _ _ hres]
          rw [hres] at hr
          obtain ⟨result, t⟩ := found
          cases result with
          | error e => exact ih hr
          | ok answers =>
            simp only at hr ⊢
            split
            · next hno =>
              rw [if_pos hno] at hr
              exact ih hr
            · next hno =>
              rw [if_neg hno] at hr
              exact hr

theorem selectServers_mono {resolve resolve' : Look (Session σ)}
    (h : ∀ q s r, resolve q s = some r → resolve' q s = some r) {q : Question} {s : Session σ}
    {r : List Record × Session σ} (hr : R.selectServers (some resolve) q s = some r) :
    R.selectServers (some resolve') q s = some r := by
  rcases R.selectServers_cases q s with
    ⟨servers, t, -, -, -, hall⟩ | ⟨nameservers, t, -, -, -, hall⟩
  · rw [hall] at hr ⊢
    exact hr
  · rw [hall, Option.map_eq_some_iff] at hr ⊢
    obtain ⟨found, hfound, hr⟩ := hr
    exact ⟨found, R.findAddresses_mono h hfound, hr⟩

theorem rounds_mono {select select' : Session σ → Option (List Record × Session σ)}
    (h : ∀ s r, select s = some r → select' s = some r) {q : Question} {limit : Nat} {f : Frame}
    {s : Session σ} {r : Except Failure RecordSet × Session σ}
    (hr : R.rounds select q limit f s = some r) : R.rounds select' q limit f s = some r := by
  induction limit generalizing f s with
  | zero => exact hr
  | succ limit ih =>
    simp only [rounds] at hr ⊢
    cases hselect : select s with
    | none => simp [hselect] at hr
    | some found =>
      rw [h s found hselect]
      rw [hselect] at hr
      obtain ⟨servers, t⟩ := found
      simp only at hr ⊢
      split
      · next hall =>
        rw [if_pos hall] at hr
        exact hr
      · next hall =>
        rw [if_neg hall] at hr
        cases hask : R.askServers q servers f t with
        | mk outcome u =>
          rw [hask] at hr
          cases outcome with
          | finished result => exact hr
          | goesOn f' => exact ih hr

theorem frame_mono {select select' : Session σ → Option (List Record × Session σ)}
    (h : ∀ s r, select s = some r → select' s = some r) {q : Question} {s : Session σ}
    {r : Except Failure RecordSet × Session σ} (hr : R.frame select q s = some r) :
    R.frame select' q s = some r := by
  simp only [frame] at hr ⊢
  split
  · next hsettled =>
    rw [if_pos hsettled] at hr
    exact hr
  · next hsettled =>
    rw [if_neg hsettled] at hr
    exact R.rounds_mono h hr

end Resolver

end IterativeDns
