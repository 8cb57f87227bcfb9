import IterativeDns.Proofs.Lookup.Frames

/-!
# What a larger budget changes

A budget bounds how deeply lookups of nameserver addresses may be nested. All frames of a lookup
share the list of names that had a frame, and a frame that ends for want of budget leaves its
name on that list. A larger budget lets a deep frame start on a name that a smaller budget would
have left to a frame further up, and if the deep frame then runs out of budget itself, the name
is lost to both: a lookup may have an answer with one budget and none with a larger one
(`larger_budget_may_lose`).

What does hold is that a larger budget changes nothing as long as the smaller one is not missed
by a nested frame (`lookup_withBudget_of_le`).
-/

namespace IterativeDns.Resolver

variable {σ : Type} (R : Resolver σ)

/-! ### Resolvers that differ in their budget -/

/-- The resolver with another budget. -/
def withBudget (budget : Nat) : Resolver σ :=
  { R with budget }

theorem askServers_withBudget (n : Nat) (q : Question) (servers : List Record) (f : Frame)
    (s : Session σ) : (R.withBudget n).askServers q servers f s = R.askServers q servers f s := by
  induction servers generalizing f s with
  | nil => rfl
  | cons server servers ih =>
    simp only [askServers, ih]
    rfl

theorem rounds_withBudget (n : Nat) (select : Session σ → Option (List Record × Session σ))
    (q : Question) (limit : Nat) (f : Frame) (s : Session σ) :
    (R.withBudget n).rounds select q limit f s = R.rounds select q limit f s := by
  induction limit generalizing f s with
  | zero => rfl
  | succ limit ih =>
    simp only [rounds, askServers_withBudget, ih]
    rfl

theorem findAddresses_withBudget (n : Nat) (resolve : Look (Session σ))
    (recordClass : RecordClass) (nameservers rest : List Record) (s : Session σ) :
    (R.withBudget n).findAddresses resolve recordClass nameservers rest s =
      R.findAddresses resolve recordClass nameservers rest s := by
  induction rest generalizing s with
  | nil => rfl
  | cons ns rest ih =>
    simp only [findAddresses, ih]
    rfl

theorem selectServers_withBudget (n : Nat) (resolve? : Option (Look (Session σ)))
    (q : Question) : (R.withBudget n).selectServers resolve? q = R.selectServers resolve? q := by
  funext s
  simp only [selectServers, findAddresses_withBudget]
  rfl

theorem resolve_withBudget (n budget : Nat) :
    (R.withBudget n).resolve budget = R.resolve budget := by
  induction budget with
  | zero =>
    funext q s
    simp only [resolve, frame, rounds_withBudget]
    rfl
  | succ budget ih =>
    funext q s
    simp only [resolve, frame, rounds_withBudget, selectServers_withBudget, ih]
    rfl

/-- The budget of a lookup is that of its first frame. -/
theorem lookup_withBudget (n : Nat) (q : Question) (s : Session σ) :
    (R.withBudget n).lookup q s = R.resolve n q { s with attempted := [q] } := by
  rw [lookup, resolve_withBudget]
  rfl

/-! ### Budgets that are not missed -/

/-- `resolve`, where a frame without budget makes its nested lookups, if `last?` is given, in
that way. -/
def resolveOver (last? : Option (Look (Session σ))) : (budget : Nat) → Look (Session σ)
  | 0, q, s => R.frame (R.selectServers last? q) q s
  | budget + 1, q, s => R.frame (R.selectServers (some (resolveOver last? budget)) q) q s

/-- The lookup that never ends. -/
def endless : Look (Session σ) := fun _ _ => none

/-- No frame without budget comes to look up the address of a nameserver: the frames end even
if such a lookup never would. -/
def Suffices (budget : Nat) (q : Question) (s : Session σ) : Prop :=
  (R.resolveOver (some endless) budget q s).isSome = true

instance (budget : Nat) (q : Question) (s : Session σ) : Decidable (R.Suffices budget q s) :=
  inferInstanceAs (Decidable (_ = true))

/-- Nameservers that can be passed over without a lookup are passed over in any case. -/
theorem findAddresses_endless {recordClass : RecordClass} {nameservers rest : List Record}
    {s : Session σ} {r : List Record × Session σ}
    (h : R.findAddresses endless recordClass nameservers rest s = some r)
    (resolve : Look (Session σ)) :
    r = ([], s) ∧ R.findAddresses resolve recordClass nameservers rest s = some ([], s) := by
  induction rest with
  | nil => exact ⟨(Option.some.inj h).symm, rfl⟩
  | cons ns rest ih =>
    simp only [findAddresses] at h ⊢
    split
    · next htarget =>
      simp only [htarget] at h
      exact ih h
    · next target htarget =>
      simp only [htarget] at h
      split
      · next hskip =>
        rw [if_pos hskip] at h
        exact ih h
      · next hskip =>
        rw [if_neg hskip] at h
        cases h

theorem selectServers_endless {q : Question} {s : Session σ} {r : List Record × Session σ}
    (h : R.selectServers (some endless) q s = some r) (resolve? : Option (Look (Session σ))) :
    R.selectServers resolve? q s = some r := by
  rcases R.selectServers_cases q s with
    ⟨servers, t, -, -, -, hall⟩ | ⟨nameservers, t, -, -, hnone, hall⟩
  · rw [hall] at h ⊢
    exact h
  · rw [hall, Option.map_eq_some_iff] at h
    obtain ⟨found, hfound, rfl⟩ := h
    -- no lookup was made, so it does not matter whether any could have been
    cases resolve? with
    | none =>
      obtain ⟨rfl, -⟩ := R.findAddresses_endless hfound endless
      exact hnone
    | some resolve =>
      obtain ⟨rfl, hres⟩ := R.findAddresses_endless hfound resolve
      rw [hall, hres]
      rfl

/-- A budget that suffices gives the result of every larger one. -/
theorem resolve_of_endless {n m : Nat} (hle : n ≤ m) {q : Question} {s : Session σ}
    {r : Except Failure RecordSet × Session σ}
    (h : R.resolveOver (some endless) n q s = some r) : R.resolve m q s = some r := by
  induction n generalizing m q s r with
  | zero =>
    cases m with
    | zero => exact R.frame_mono (fun t r ht => R.selectServers_endless ht none) h
    | succ m => exact R.frame_mono (fun t r ht => R.selectServers_endless ht (some _)) h
  | succ n ih =>
    cases m with
    | zero => exact absurd hle (Nat.not_succ_le_zero n)
    | succ m =>
      have hnested : ∀ q s r, R.resolveOver (some endless) n q s = some r →
          R.resolve m q s = some r :=
        fun q s r hr => ih (Nat.le_of_succ_le_succ hle) hr
      exact R.frame_mono (fun t r ht => R.selectServers_mono hnested ht) h

/-! ### A lookup without nested lookups

With a budget of zero there is only one frame. If it finds nobody to ask it ends, and then it
ends empty-handed: it goes on only as long as neither the cache nor what it has been told holds
anything of the answer. -/

/-- Nothing of the answer is known. -/
structure Unanswered (q : Question) (f : Frame) (s : Session σ) : Prop where
  wellFormed : s.cache.WellFormed
  told : f.answers.isEmpty = true
  cached : (s.cache.answers (R.now s) q).1.isEmpty = true

variable {R}

/-- Time may pass meanwhile. -/
theorem Unanswered.congr {q : Question} {f f' : Frame} {s t : Session σ}
    (h : R.Unanswered q f s) (hf : f'.answers = f.answers)
    (ht : t.cache.entries = s.cache.entries) (hle : R.now s ≤ R.now t) :
    R.Unanswered q f' t := by
  refine ⟨h.wellFormed.congr ht, hf ▸ h.told, ?_⟩
  rw [Cache.answers_congr ht]
  exact Cache.answers_isEmpty_of_le hle h.cached

/-- Whoever goes on after all servers of a round still knows nothing of the answer. -/
theorem Unanswered.askServers {q : Question} {servers : List Record} {f f' : Frame}
    {s t : Session σ} (h : R.Unanswered q f s)
    (hask : R.askServers q servers f s = (.goesOn f', t)) : R.Unanswered q f' t := by
  induction servers generalizing f s with
  | nil =>
    cases hask
    exact h
  | cons server servers ih =>
    simp only [Resolver.askServers] at hask
    split at hask
    · exact ih h hask
    · split at hask
      · refine ih ?_ hask
        exact h.congr rfl rfl (Int.le_refl _)
      · next address haddress =>
        have hcache := R.cache_askServer q server address s
        have hnow := R.now_le_askServer q server address s
        split at hask
        · cases hask
        · next u hasked =>
          rw [hasked] at hcache hnow
          refine ih ?_ hask
          exact h.congr rfl (congrArg Cache.entries hcache) hnow
        · next records u hasked =>
          rw [hasked] at hcache
          have hwf : u.cache.WellFormed := hcache ▸ h.wellFormed.addAll records
          split at hask
          · cases hask
          · next hunsettled =>
            refine ih ?_ hask
            -- the question is not settled, and everything told or cached would settle it
            have hempty := Question.isEmpty_of_not_isSettledBy ?_ hunsettled
            · exact ⟨hwf.congr (u.entries_answers (R.now u) q), hempty, by
                rw [now_answers, Cache.answers_congr (u.entries_answers (R.now u) q)]
                exact (RecordSet.isEmpty_union.1 hempty).2⟩
            · intro r hr
              rcases RecordSet.mem_of_mem_insertAll hr with hr | hr
              · rcases RecordSet.mem_of_mem_insertAll hr with hr | hr
                · exact absurd ⟨r, hr⟩ (RecordSet.isEmpty_iff_not_exists.1 h.told)
                · exact (List.mem_filter.1 hr).2
              · exact hwf.isAnswer_of_mem_answers hr

/-- A frame that ends with an answer never went without servers to ask. -/
theorem Unanswered.rounds {q : Question} {limit : Nat} {f : Frame} {s s' : Session σ}
    {found : RecordSet} (h : R.Unanswered q f s)
    (hr : R.rounds (R.selectServers none q) q limit f s = some (.ok found, s'))
    (hfound : found.isEmpty = false) (resolve? : Option (Look (Session σ))) :
    R.rounds (R.selectServers resolve? q) q limit f s = some (.ok found, s') := by
  induction limit generalizing f s with
  | zero => cases hr
  | succ limit ih =>
    simp only [Resolver.rounds] at hr ⊢
    rcases R.selectServers_cases q s with
      ⟨servers, t, -, hnow, ht, hall⟩ | ⟨-, t, hnow, ht, hnone, -⟩
    · rw [hall] at hr ⊢
      have ht := h.congr rfl ht (Int.le_of_eq hnow.symm)
      simp only at hr ⊢
      split
      · next htried =>
        rw [if_pos htried] at hr
        exact hr
      · next htried =>
        rw [if_neg htried] at hr
        cases hask : R.askServers q servers f t with
        | mk outcome u =>
          rw [hask] at hr
          cases outcome with
          | finished result => exact hr
          | goesOn f' => exact ih (ht.askServers hask) hr
    · -- without servers the frame ends here, with what is known of the answer
      rw [hnone] at hr
      have ht := h.congr rfl ht (Int.le_of_eq hnow.symm)
      have hempty : (f.answers.union (t.cache.answers (R.now t) q).1).isEmpty = true :=
        RecordSet.isEmpty_union.2 ⟨ht.told, ht.cached⟩
      have hended : f.answers.union (t.cache.answers (R.now t) q).1 = found := by
        simp only [List.all_nil, if_true, Option.some.injEq, Prod.mk.injEq, Except.ok.injEq] at hr
        exact hr.1
      rw [hended, hfound] at hempty
      cases hempty

/-- An answer that was found without a budget is found with any. -/
theorem resolve_of_resolve_zero {q : Question} {s s' : Session σ} {found : RecordSet}
    (hwf : s.cache.WellFormed) (hr : R.resolve 0 q s = some (.ok found, s'))
    (hfound : found.isEmpty = false) (budget : Nat) :
    R.resolve budget q s = some (.ok found, s') := by
  have hframe : ∀ resolve?,
      R.frame (R.selectServers resolve? q) q s = some (.ok found, s') := by
    intro resolve?
    simp only [resolve, frame] at hr ⊢
    split
    · next hsettled =>
      rw [if_pos hsettled] at hr
      exact hr
    · next hsettled =>
      rw [if_neg hsettled] at hr
      have hempty := Question.isEmpty_of_not_isSettledBy
        (fun r hr => hwf.isAnswer_of_mem_answers hr) hsettled
      have hstart : R.Unanswered q ⟨(s.cache.answers (R.now s) q).1, .empty⟩ s :=
        ⟨hwf, hempty, hempty⟩
      have hread := hstart.congr rfl (s.entries_answers (R.now s) q) (Int.le_refl _)
      exact hread.rounds hr hfound resolve?
  cases budget with
  | zero => exact hframe none
  | succ budget => exact hframe (some (R.resolve budget))

/-! ### Delegations that cross

The zones of these delegations name their servers after each other, and only one server has a
known address. A lookup for `q.z` tries `a.u` first, which leads to `x.v` by way of `w.t`, and
then `x.v` itself. -/

/-- The records of a lookup that has ended without a failure. -/
def foundRecords {σ : Type} (r? : Option (Except Failure RecordSet × Session σ)) :
    Option (List Record) :=
  r?.bind fun r => r.1.toOption.map RecordSet.toList

theorem foundRecords_eq_some {σ : Type} {r? : Option (Except Failure RecordSet × Session σ)}
    {records : List Record} (h : foundRecords r? = some records) :
    ∃ found s, r? = some (.ok found, s) ∧ found.toList = records := by
  obtain ⟨⟨result, s⟩, hr, hrecords⟩ := Option.bind_eq_some_iff.1 h
  cases result with
  | error e => cases hrecords
  | ok found => exact ⟨found, s, hr, Option.some.inj hrecords⟩

namespace Crossing

/-- A zone is served by `target`. -/
def delegation (zone target : String) : Record :=
  .permanent ⟨zone, .ns, .«in»⟩ (.name target)

/-- A name has the address `10.0.0.host`. -/
def located (name : String) (host : UInt8) : Record :=
  .permanent ⟨name, .a, .«in»⟩ (.address (.ofQuad 10 0 0 host))

/-- Each server tells one record, whatever it is asked. -/
def client : Client Unit :=
  .stateless fun _ server =>
    let told := [(Address.ofQuad 10 0 0 1, located "y.s" 2), (.ofQuad 10 0 0 2, located "x.v" 3),
      (.ofQuad 10 0 0 3, located "q.z" 9)]
    match told.lookup server with
    | some r => ⟨.ok (.message ⟨0, {}, none, [r], [], []⟩), []⟩
    | none => ⟨.ok .silence, []⟩

def resolver : Resolver Unit :=
  ⟨client, false, 0, 2⟩

def question : Question :=
  ⟨"q.z", .a, .«in»⟩

/-- The delegations of the zone of the question. -/
def first : List Record :=
  [delegation "z" "a.u", delegation "z" "x.v"]

def delegations : Cache :=
  ({} : Cache).addAll (first ++ [delegation "u" "w.t", delegation "t" "x.v",
    delegation "v" "y.s", delegation "s" "n.s", located "n.s" 1])

def start : Session Unit :=
  { client := (), cache := delegations }

/-- The first frame, once it has found nothing in the cache. -/
def opened : Session Unit :=
  ({ start with attempted := [question] }.answers 0 question).2

theorem frame_eq (select : Session Unit → Option (List Record × Session Unit)) :
    resolver.frame select question { start with attempted := [question] } =
      resolver.rounds select question 2 ⟨.empty, .empty⟩ opened := rfl

theorem bestNameservers_opened : (opened.bestNameservers 0 question).1 = first := by
  have hread : (opened.bestNameservers 0 question).1 = Cache.byTarget first := rfl
  rw [hread]
  exact List.mergeSort_of_pairwise (by decide)

theorem knownAddresses_opened :
    ((opened.bestNameservers 0 question).2.knownAddresses 0 first false).1 = [] := by
  decide +kernel

/-- With a budget the first frame looks up the servers of `first`. -/
theorem selectServers_opened (resolve : Look (Session Unit)) :
    resolver.selectServers (some resolve) question opened =
      (resolver.findAddresses resolve .«in» first first
        ((opened.bestNameservers 0 question).2.knownAddresses 0 first false).2).map fun r =>
          (r.1, r.2.record (.selected question (resolver.snapshot opened) (resolver.snapshot r.2)
            r.1)) :=
  resolver.selectServers_of_unknown bestNameservers_opened knownAddresses_opened resolve

end Crossing

/-! ### Main results -/

/-- An answer found with one budget is found with every larger one, after the same exchanges and
with the same cache at the end, if the budget is zero or suffices. -/
theorem lookup_withBudget_of_le {n m : Nat} (hle : n ≤ m) {q : Question} {s s' : Session σ}
    {found : RecordSet} (hwf : s.cache.WellFormed)
    (hr : (R.withBudget n).lookup q s = some (.ok found, s')) (hfound : found.isEmpty = false)
    (hbudget : n = 0 ∨ R.Suffices n q { s with attempted := [q] }) :
    (R.withBudget m).lookup q s = some (.ok found, s') := by
  rw [lookup_withBudget] at hr ⊢
  rcases hbudget with rfl | hsuffices
  · exact resolve_of_resolve_zero (s := { s with attempted := [q] }) hwf hr hfound m
  · obtain ⟨r, hover⟩ := Option.isSome_iff_exists.1 hsuffices
    -- the run that does not miss its budget is the run with budget `n`
    have hsame : r = (.ok found, s') := by
      rw [R.resolve_of_endless (Nat.le_refl n) hover] at hr
      exact Option.some.inj hr
    rw [← hsame]
    exact R.resolve_of_endless hle hover

/-- With a budget of four the lookup of `q.z` is never cut short, and a budget of seven finds what
it finds. -/
theorem Crossing.found_with_seven :
    foundRecords ((Crossing.resolver.withBudget 7).lookup Crossing.question Crossing.start) =
      some [Crossing.located "q.z" 9] := by
  have hfour :
      foundRecords ((Crossing.resolver.withBudget 4).lookup Crossing.question Crossing.start) =
        some [Crossing.located "q.z" 9] := by
    rw [lookup_withBudget, resolve, Crossing.frame_eq, rounds, Crossing.selectServers_opened]
    decide +kernel
  have hsuffices : Crossing.resolver.Suffices 4 Crossing.question
      { Crossing.start with attempted := [Crossing.question] } := by
    rw [Suffices, resolveOver, Crossing.frame_eq, rounds, Crossing.selectServers_opened]
    decide +kernel
  have hwf : Crossing.start.cache.WellFormed := Cache.wellFormed_empty.addAll _
  obtain ⟨found, s, hr, hrecords⟩ := foundRecords_eq_some hfour
  have hfound : found.isEmpty = false := by rw [RecordSet.isEmpty, hrecords]; rfl
  rw [lookup_withBudget_of_le (by decide : 4 ≤ 7) hwf hr hfound (.inr hsuffices)]
  exact congrArg some hrecords

/-- A budget of two finds an answer for `q.z` and a budget of three finds none: with three units
`x.v` has its frame below that of `w.t`, where nothing is left to look up `y.s` with, and no
second one. -/
theorem larger_budget_may_lose :
    foundRecords ((Crossing.resolver.withBudget 2).lookup Crossing.question Crossing.start) =
        some [Crossing.located "q.z" 9] ∧
      foundRecords ((Crossing.resolver.withBudget 3).lookup Crossing.question Crossing.start) =
        some [] := by
  constructor
  · rw [lookup_withBudget, resolve, Crossing.frame_eq, rounds, Crossing.selectServers_opened]
    decide +kernel
  · rw [lookup_withBudget, resolve, Crossing.frame_eq, rounds, Crossing.selectServers_opened]
    decide +kernel

end IterativeDns.Resolver
