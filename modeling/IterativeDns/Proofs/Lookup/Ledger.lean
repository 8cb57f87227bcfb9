import IterativeDns.Proofs.Lookup.Course

/-!
# What a lookup leaves behind

The history of a lookup accounts for everything the lookup does. `Session.Evolves` says how: the
steps are the calls of the client, one after the other; the cache is the one of the beginning
with the records of those responses added that carry no error; and what is asked is the
question of the frame itself or a question that had no frame before.

**How a frame ends is decided by its steps as well**: it fails when an exchange for its own
question fails, which is then its last step, and only then (`resolve_accounted`). The failures of
nested frames are told from those of the frame by the question that was asked.
-/

namespace IterativeDns

/-! ### Steps -/

namespace LookupStep

/-- The question a server was asked. -/
def asked? : LookupStep → Option Question
  | asked q _ _ => some q
  | selected .. => none

/-- The records a step has brought: what a response without an error carries, without the
pseudo-records. -/
def told : LookupStep → List Record
  | asked _ _ (.ok (.message m)) => if m.responseCode.isError then [] else m.learnable
  | _ => []

/-- Why a lookup of `q` fails with a step: the exchange for `q` failed, or the server's verdict is
an error. -/
def failure? (q : Question) : LookupStep → Option Failure
  | asked p _ (.error e) => if p = q then some e else none
  | asked p server (.ok (.message m)) =>
    if p = q ∧ m.responseCode.isError = true then
      server.address?.map fun address => .errorResponse m.responseCode address.text
    else none
  | _ => none

theorem asked?_of_failure? {q : Question} {step : LookupStep} {e : Failure}
    (h : step.failure? q = some e) : step.asked? = some q := by
  unfold failure? at h
  split at h
  · split at h
    · next hq => exact congrArg some hq
    · cases h
  · split at h
    · next hq => exact congrArg some hq.1
    · cases h
  · cases h

/-- None of some steps makes a lookup of `q` fail. -/
def Harmless (q : Question) (steps : List LookupStep) : Prop :=
  ∀ step ∈ steps, step.failure? q = none

/-- The steps a lookup of `q` has made when something ends with a result: if that is a failure,
the last of them and no other is the reason. -/
def Explain {α : Type} (q : Question) (steps : List LookupStep) : Except Failure α → Prop
  | .ok _ => Harmless q steps
  | .error e => ∃ before step, steps = before ++ [step] ∧ Harmless q before ∧
      step.failure? q = some e

section Explanations

variable {α : Type} {q : Question} {result : Except Failure α}

theorem Harmless.append {steps later : List LookupStep} (h : Harmless q steps)
    (hlater : Harmless q later) : Harmless q (steps ++ later) :=
  List.forall_mem_append.2 ⟨h, hlater⟩

theorem Explain.append {steps later : List LookupStep} (h : Harmless q steps)
    (hlater : Explain q later result) : Explain q (steps ++ later) result := by
  cases result with
  | ok value => exact h.append hlater
  | error e =>
    obtain ⟨before, step, rfl, hbefore, hstep⟩ := hlater
    exact ⟨steps ++ before, step, (List.append_assoc ..).symm, h.append hbefore, hstep⟩

/-- A result is a failure exactly if some step is the reason. -/
theorem Explain.eq_error_iff {steps : List LookupStep} (h : Explain q steps result) (e : Failure) :
    result = .error e ↔ ∃ step ∈ steps, step.failure? q = some e := by
  cases result with
  | ok value =>
    constructor
    · intro hr
      cases hr
    · intro hex
      obtain ⟨step, hmem, hstep⟩ := hex
      rw [h step hmem] at hstep
      cases hstep
  | error e' =>
    obtain ⟨before, last, rfl, hbefore, hlast⟩ := h
    constructor
    · intro hr
      cases hr
      exact ⟨last, by simp, hlast⟩
    · intro hex
      obtain ⟨step, hmem, hstep⟩ := hex
      rcases List.mem_append.1 hmem with hmem | hmem
      · rw [hbefore step hmem] at hstep
        cases hstep
      · rw [List.mem_singleton.1 hmem, hlast] at hstep
        rw [Option.some.inj hstep]

/-- Nothing comes after the step that is the reason. -/
theorem Explain.eq_nil_of_failure? {before after : List LookupStep} {step : LookupStep}
    {e : Failure} (h : Explain q (before ++ step :: after) result)
    (hstep : step.failure? q = some e) : after = [] := by
  cases result with
  | ok value =>
    rw [h step (by simp)] at hstep
    cases hstep
  | error e' =>
    obtain ⟨init, last, heq, hinit, -⟩ := h
    by_cases hafter : after = []
    · exact hafter
    · -- otherwise the step is one of those before the last
      have hmem : step ∈ (before ++ step :: after).dropLast := by
        rw [List.dropLast_append_of_ne_nil (List.cons_ne_nil _ _),
          List.dropLast_cons_of_ne_nil hafter]
        simp
      rw [heq, List.dropLast_concat] at hmem
      rw [hinit step hmem] at hstep
      cases hstep

end Explanations

end LookupStep

/-! ### Calls of the client -/

namespace Client

variable {σ : Type}

/-- The exchanges among some steps are calls of the client, made in this order; the first finds
it in the state `x` and the last leaves it in the state `y`. -/
def Serves (C : Client σ) : σ → List LookupStep → σ → Prop
  | x, [], y => x = y
  | x, .selected .. :: steps, y => C.Serves x steps y
  | x, .asked q server outcome :: steps, y =>
    ∃ address, server.address? = some address ∧ (C.ask q address x).1.outcome = outcome ∧
      C.Serves (C.ask q address x).2 steps y

theorem Serves.append {C : Client σ} {steps later : List LookupStep} {x y z : σ}
    (h : C.Serves x steps y) (hlater : C.Serves y later z) : C.Serves x (steps ++ later) z := by
  induction steps generalizing x with
  | nil =>
    cases h
    exact hlater
  | cons step steps ih =>
    cases step with
    | selected p before after servers => exact ih h
    | asked p server outcome =>
      obtain ⟨address, haddress, houtcome, hrest⟩ := h
      exact ⟨address, haddress, houtcome, ih hrest⟩

/-- The steps decide in which state the client is left. -/
theorem Serves.inj {C : Client σ} {steps : List LookupStep} {x y z : σ}
    (h : C.Serves x steps y) (h' : C.Serves x steps z) : y = z := by
  induction steps generalizing x with
  | nil => exact h.symm.trans h'
  | cons step steps ih =>
    cases step with
    | selected p before after servers => exact ih h h'
    | asked p server outcome =>
      obtain ⟨address, haddress, -, hrest⟩ := h
      obtain ⟨address', haddress', -, hrest'⟩ := h'
      rw [haddress] at haddress'
      cases haddress'
      exact ih hrest hrest'

/-- Steps are served one part after the other. -/
theorem Serves.exists_of_append {C : Client σ} {steps later : List LookupStep} {x z : σ}
    (h : C.Serves x (steps ++ later) z) : ∃ y, C.Serves x steps y ∧ C.Serves y later z := by
  induction steps generalizing x with
  | nil => exact ⟨x, rfl, h⟩
  | cons step steps ih =>
    cases step with
    | selected p before after servers => exact ih h
    | asked p server outcome =>
      obtain ⟨address, haddress, houtcome, hrest⟩ := h
      obtain ⟨y, hsteps, hlater⟩ := ih hrest
      exact ⟨y, ⟨address, haddress, houtcome, hsteps⟩, hlater⟩

/-- However many exchanges are made, the clock never goes back. -/
theorem Serves.now_le {C : Client σ} {steps : List LookupStep} {x y : σ}
    (h : C.Serves x steps y) : C.now x ≤ C.now y := by
  induction steps generalizing x with
  | nil =>
    cases h
    exact Int.le_refl _
  | cons step steps ih =>
    cases step with
    | selected p before after servers => exact ih h
    | asked p server outcome =>
      obtain ⟨address, -, -, hrest⟩ := h
      exact Int.le_trans (C.now_le_now_ask p address x) (ih hrest)

end Client

/-! ### Reading -/

namespace Cache

/-- Two caches hold the same and have counted the same changes. They may have been read
differently often. -/
structure SameButReads (c d : Cache) : Prop where
  entries : c.entries = d.entries
  insertions : c.counters.insertions = d.counters.insertions
  evictions : c.counters.evictions = d.counters.evictions

theorem SameButReads.refl (c : Cache) : c.SameButReads c := ⟨rfl, rfl, rfl⟩

theorem SameButReads.symm {c d : Cache} (h : c.SameButReads d) : d.SameButReads c :=
  ⟨h.entries.symm, h.insertions.symm, h.evictions.symm⟩

theorem SameButReads.trans {c d e : Cache} (h : c.SameButReads d) (h' : d.SameButReads e) :
    c.SameButReads e :=
  ⟨h.entries.trans h'.entries, h.insertions.trans h'.insertions, h.evictions.trans h'.evictions⟩

theorem SameButReads.add {c d : Cache} (h : c.SameButReads d) (r : Record) :
    (c.add r).SameButReads (d.add r) where
  entries := congrArg (addTo r) h.entries
  insertions := congrArg (· + 1) h.insertions
  evictions := h.evictions

theorem SameButReads.addAll {c d : Cache} (h : c.SameButReads d) (rs : List Record) :
    (c.addAll rs).SameButReads (d.addAll rs) := by
  induction rs generalizing c d with
  | nil => exact h
  | cons r rs ih => exact ih (h.add r)

theorem addAll_append (c : Cache) (rs later : List Record) :
    c.addAll (rs ++ later) = (c.addAll rs).addAll later :=
  List.foldl_append

theorem sameButReads_get (c : Cache) (now : Instant) (q : Question) :
    (c.get now q).2.SameButReads c := by
  simp only [get, countReading]
  split <;> exact ⟨rfl, rfl, rfl⟩

theorem sameButReads_answers (c : Cache) (now : Instant) (q : Question) :
    (c.answers now q).2.SameButReads c := by
  simp only [answers]
  split
  · exact c.sameButReads_get now q
  · exact (sameButReads_get _ now _).trans (c.sameButReads_get now q)

theorem sameButReads_firstDelegation (now : Instant) (recordClass : RecordClass)
    (zones : List String) (c : Cache) :
    (firstDelegation now recordClass zones c).2.SameButReads c := by
  induction zones generalizing c with
  | nil => exact .refl c
  | cons zone zones ih =>
    simp only [firstDelegation]
    split
    · exact (ih _).trans (c.sameButReads_get now _)
    · exact c.sameButReads_get now _

theorem sameButReads_collectAddresses (now : Instant) (qs : List Question) (found : RecordSet)
    (c : Cache) : (collectAddresses now qs found c).2.SameButReads c := by
  induction qs generalizing found c with
  | nil => exact .refl c
  | cons q qs ih =>
    simp only [collectAddresses]
    exact (ih _ _).trans (c.sameButReads_get now q)

end Cache

/-! ### Sessions -/

namespace Session

variable {σ : Type}

theorem hasAttempted_attempt {s : Session σ} {p q : Question} :
    (s.attempt q).hasAttempted p = true ↔ s.hasAttempted p = true ∨ q.sameAs p = true := by
  simp [hasAttempted, attempt]

/-- Where a lookup begins, only its own question has a frame. -/
theorem hasAttempted_singleton {s : Session σ} {p q : Question} :
    ({ s with attempted := [q] } : Session σ).hasAttempted p = q.sameAs p := by
  simp [hasAttempted]

theorem hasAttempted_attempt_self (s : Session σ) (q : Question) :
    (s.attempt q).hasAttempted q = true :=
  hasAttempted_attempt.2 (.inr q.sameAs_refl)

/-- How a session gets from one state to another with some steps, while a frame for `own?` is the
innermost one or, if there is none, between frames. -/
structure Evolves (C : Client σ) (own? : Option Question) (s : Session σ)
    (steps : List LookupStep) (t : Session σ) : Prop where
  history : t.history = s.history ++ steps
  served : C.Serves s.client steps t.client
  cache : t.cache.SameButReads (s.cache.addAll (steps.flatMap LookupStep.told))
  attempted : ∀ p, s.hasAttempted p = true → t.hasAttempted p = true
  asks : ∀ step ∈ steps, ∀ p, step.asked? = some p → own? = some p ∨ s.hasAttempted p = false

variable {C : Client σ} {own? : Option Question} {q : Question}

theorem Evolves.trans {s t u : Session σ} {steps later : List LookupStep}
    (h : Evolves C own? s steps t) (h' : Evolves C own? t later u) :
    Evolves C own? s (steps ++ later) u where
  history := by rw [h'.history, h.history, List.append_assoc]
  served := h.served.append h'.served
  cache := by
    rw [List.flatMap_append, Cache.addAll_append]
    exact h'.cache.trans (h.cache.addAll _)
  attempted p hp := h'.attempted p (h.attempted p hp)
  asks := by
    rw [List.forall_mem_append]
    refine ⟨h.asks, ?_⟩
    intro step hstep p hp
    rcases h'.asks step hstep p hp with hown | hnew
    · exact .inl hown
    · -- what has no frame later has none now
      refine .inr (Bool.eq_false_iff.2 ?_)
      intro hold
      rw [h.attempted p hold] at hnew
      cases hnew

/-- Reading the cache takes no step. -/
theorem Evolves.read (s : Session σ) {c : Cache} (hc : c.SameButReads s.cache) :
    Evolves C own? s [] { s with cache := c } where
  history := (List.append_nil _).symm
  served := rfl
  cache := hc
  attempted _ hp := hp
  asks := by simp

theorem Evolves.refl (s : Session σ) : Evolves C own? s [] s :=
  .read s (.refl s.cache)

theorem Evolves.answers {s t : Session σ} {steps : List LookupStep}
    (h : Evolves C own? s steps t) (now : Instant) (p : Question) :
    Evolves C own? s steps (t.answers now p).2 := by
  have hread := h.trans (.read t (t.cache.sameButReads_answers now p))
  rwa [List.append_nil] at hread

theorem Evolves.selected (s : Session σ) (p : Question) (before after : Snapshot)
    (servers : List Record) :
    Evolves C own? s [.selected p before after servers]
      (s.record (.selected p before after servers)) where
  history := rfl
  served := rfl
  cache := .refl s.cache
  attempted _ hp := hp
  asks := by simp [LookupStep.asked?]

/-- What happens between frames happens within every frame. -/
theorem Evolves.within {s t : Session σ} {steps : List LookupStep}
    (h : Evolves C none s steps t) : Evolves C own? s steps t :=
  { h with asks := fun step hstep p hp => .inr ((h.asks step hstep p hp).resolve_left nofun) }

/-- A frame for a question that had none before happens between frames. -/
theorem Evolves.between {s t : Session σ} {steps : List LookupStep}
    (h : Evolves C (some q) (s.attempt q) steps t) (hnew : s.hasAttempted q = false) :
    Evolves C none s steps t where
  history := h.history
  served := h.served
  cache := h.cache
  attempted p hp := h.attempted p (hasAttempted_attempt.2 (.inl hp))
  asks := by
    intro step hstep p hp
    refine .inr ?_
    rcases h.asks step hstep p hp with hown | hnone
    · cases hown
      exact hnew
    · rw [← Bool.not_eq_true, hasAttempted_attempt, not_or, Bool.not_eq_true] at hnone
      exact hnone.1

/-- Steps between frames are no failures of a question that has a frame. -/
theorem Evolves.harmless {s t : Session σ} {steps : List LookupStep}
    (h : Evolves C none s steps t) (hq : s.hasAttempted q = true) :
    LookupStep.Harmless q steps := by
  intro step hstep
  cases hfailure : step.failure? q with
  | none => rfl
  | some e =>
    rcases h.asks step hstep q (LookupStep.asked?_of_failure? hfailure) with hown | hnew
    · cases hown
    · rw [hq] at hnew
      cases hnew

/-- A well-formed cache stays so. -/
theorem Evolves.wellFormed {s t : Session σ} {steps : List LookupStep}
    (h : Evolves C own? s steps t) (hs : s.cache.WellFormed) : t.cache.WellFormed :=
  (hs.addAll _).congr h.cache.entries

/-- What comes of an outcome changes nothing but the cache and the trace. -/
theorem digest_eq (s : Session σ) (server : Address) (outcome : Except Failure Reply) :
    ∃ trace, (s.digest server outcome).2 =
      { s with trace, cache := s.cache.addAll (Resolver.gained (s.digest server outcome).1) } := by
  unfold digest
  split
  · exact ⟨s.trace, rfl⟩
  · exact ⟨s.trace, rfl⟩
  · split <;> exact ⟨_, rfl⟩

/-- The step of an exchange tells what comes of its outcome. -/
theorem gained_digest (s : Session σ) (p : Question) (server : Record) (address : Address)
    (outcome : Except Failure Reply) :
    Resolver.gained (s.digest address outcome).1 = (LookupStep.asked p server outcome).told := by
  cases outcome with
  | error f => rfl
  | ok reply =>
    cases reply with
    | silence => rfl
    | message m =>
      simp only [digest, LookupStep.told]
      split <;> rfl

theorem explain_digest (s : Session σ) (p : Question) {server : Record} {address : Address}
    (haddress : server.address? = some address) (outcome : Except Failure Reply) :
    LookupStep.Explain p [.asked p server outcome] (s.digest address outcome).1 := by
  cases outcome with
  | error f => exact ⟨[], _, rfl, by simp [LookupStep.Harmless], by simp [LookupStep.failure?]⟩
  | ok reply =>
    cases reply with
    | silence => simp [digest, LookupStep.Explain, LookupStep.Harmless, LookupStep.failure?]
    | message m =>
      by_cases herror : m.responseCode.isError = true
      · simp only [digest, if_pos herror]
        exact ⟨[], _, rfl, by simp [LookupStep.Harmless],
          by simp [LookupStep.failure?, herror, haddress]⟩
      · simp [digest, LookupStep.Explain, LookupStep.Harmless, LookupStep.failure?, herror]

end Session

/-! ### What each action of a lookup adds to the ledger -/

namespace Resolver

variable {σ : Type} {R : Resolver σ} {q : Question}

/-- The step of an exchange with a server. -/
def stepOf (R : Resolver σ) (q : Question) (server : Record) (address : Address)
    (s : Session σ) : LookupStep :=
  .asked q server (R.client.ask q address s.client).1.outcome

theorem askServer_eq (server : Record) (address : Address) (s : Session σ) :
    R.askServer q server address s =
      ((R.exchange q address s).2.record (R.stepOf q server address s)).digest address
        (R.client.ask q address s.client).1.outcome := rfl

/-- Asking a server takes one step, which explains what comes of it. -/
theorem askServer_evolves {server : Record} {address : Address}
    (haddress : server.address? = some address) {s t : Session σ}
    {result : Except Failure (Option (List Record))}
    (hask : R.askServer q server address s = (result, t)) :
    s.Evolves R.client (some q) [R.stepOf q server address s] t ∧
      LookupStep.Explain q [R.stepOf q server address s] result := by
  rw [askServer_eq] at hask
  obtain ⟨trace, hdigest⟩ :=
    ((R.exchange q address s).2.record (R.stepOf q server address s)).digest_eq address
      (R.client.ask q address s.client).1.outcome
  have hexplain := Session.explain_digest
    ((R.exchange q address s).2.record (R.stepOf q server address s)) q haddress
    (R.client.ask q address s.client).1.outcome
  rw [Session.gained_digest _ q server, hask] at hdigest
  rw [hask] at hexplain
  refine ⟨?_, hexplain⟩
  subst hdigest
  refine ⟨rfl, ⟨address, haddress, rfl, rfl⟩, ?_, fun _ hp => hp, ?_⟩
  · rw [List.flatMap_singleton]
    exact .refl _
  · intro step hstep p hp
    rw [List.mem_singleton.1 hstep] at hp
    exact .inl hp

/-- What a server has told is what the step of the exchange says. -/
theorem told_stepOf {server : Record} {address : Address} {s t : Session σ}
    {records : List Record} (hask : R.askServer q server address s = (.ok (some records), t)) :
    (R.stepOf q server address s).told = records := by
  have hgained := Session.gained_digest
    ((R.exchange q address s).2.record (R.stepOf q server address s)) q server address
    (R.client.ask q address s.client).1.outcome
  rw [← askServer_eq, hask] at hgained
  exact hgained.symm

/-- The account of a frame for a question that has been noted as attempted. -/
def Accounted (R : Resolver σ) (q : Question) (s : Session σ)
    (r : Except Failure RecordSet × Session σ) : Prop :=
  s.hasAttempted q = true →
    ∃ steps, s.Evolves R.client (some q) steps r.2 ∧ LookupStep.Explain q steps r.1

/-- Lookups of addresses are accounted for. -/
def AccountedLookups (R : Resolver σ) (resolve? : Option (Look (Session σ))) : Prop :=
  ∀ resolve, resolve? = some resolve → ∀ q s r, resolve q s = some r → R.Accounted q s r

/-- A way of selecting servers is accounted for by steps between frames. -/
def AccountedSelection (R : Resolver σ)
    (select : Session σ → Option (List Record × Session σ)) : Prop :=
  ∀ s servers t, select s = some (servers, t) → ∃ steps, s.Evolves R.client none steps t

theorem Errand.evolves {resolve? : Option (Look (Session σ))}
    (hnested : R.AccountedLookups resolve?) {s t : Session σ} (h : R.Errand resolve? s t) :
    ∃ steps, s.Evolves R.client none steps t := by
  cases h with
  | bestNameservers p =>
    exact ⟨[], .read s (Cache.sameButReads_firstDelegation ..)⟩
  | knownAddresses nameservers =>
    exact ⟨[], .read s (Cache.sameButReads_collectAddresses ..)⟩
  | lookUp hresolve hnew hresult =>
    obtain ⟨steps, hsteps, -⟩ :=
      hnested _ hresolve _ _ _ hresult (s.hasAttempted_attempt_self _)
    exact ⟨steps, hsteps.between hnew⟩

theorem Errands.evolves {resolve? : Option (Look (Session σ))}
    (hnested : R.AccountedLookups resolve?) {s t : Session σ} (h : R.Errands resolve? s t) :
    ∃ steps, s.Evolves R.client none steps t := by
  induction h with
  | refl => exact ⟨[], .refl s⟩
  | tail _ herrand ih =>
    obtain ⟨steps, hsteps⟩ := ih
    obtain ⟨later, hlater⟩ := herrand.evolves hnested
    exact ⟨steps ++ later, hsteps.trans hlater⟩

theorem selectServers_accounted {resolve? : Option (Look (Session σ))}
    (hnested : R.AccountedLookups resolve?) (q : Question) :
    R.AccountedSelection (R.selectServers resolve? q) := by
  intro s servers t h
  obtain ⟨u, herrands, rfl⟩ := selectServers_errands h
  obtain ⟨steps, hsteps⟩ := Errands.evolves hnested herrands
  exact ⟨_, hsteps.trans (.selected u q (R.snapshot s) (R.snapshot u) servers)⟩

section Frames

variable {select : Session σ → Option (List Record × Session σ)}
  (hselect : R.AccountedSelection select)

include hselect

/-- A move is accounted for by steps that do not fail. -/
theorem Move.evolves {a b : Stage σ} (h : R.Move select q a b)
    (hq : a.session.hasAttempted q = true) :
    ∃ steps, a.session.Evolves R.client (some q) steps b.session ∧
      LookupStep.Harmless q steps := by
  cases h with
  | select hsel _ =>
    obtain ⟨steps, hsteps⟩ := hselect _ _ _ hsel
    exact ⟨steps, hsteps.within, hsteps.harmless hq⟩
  | pass => exact ⟨[], .refl _, List.forall_mem_nil _⟩
  | skip => exact ⟨[], .refl _, List.forall_mem_nil _⟩
  | silent _ haddress hask => exact ⟨_, askServer_evolves haddress hask⟩
  | told _ haddress hask _ =>
    obtain ⟨hasked, hexplain⟩ := askServer_evolves haddress hask
    exact ⟨_, hasked.answers _ q, hexplain⟩

theorem Moves.evolves {a b : Stage σ} (h : R.Moves select q a b)
    (hq : a.session.hasAttempted q = true) :
    ∃ steps, a.session.Evolves R.client (some q) steps b.session ∧
      LookupStep.Harmless q steps := by
  induction h with
  | refl => exact ⟨[], .refl _, List.forall_mem_nil _⟩
  | tail _ hmove ih =>
    obtain ⟨steps, hsteps, hharmless⟩ := ih
    obtain ⟨later, hlater, hlaterHarmless⟩ := hmove.evolves hselect (hsteps.attempted q hq)
    exact ⟨steps ++ later, hsteps.trans hlater, hharmless.append hlaterHarmless⟩

/-- The last action of a frame explains its result. -/
theorem Finish.evolves {last : Stage σ} {r : Except Failure RecordSet × Session σ}
    (h : R.Finish select q last r) (hq : last.session.hasAttempted q = true) :
    ∃ steps, last.session.Evolves R.client (some q) steps r.2 ∧
      LookupStep.Explain q steps r.1 := by
  cases h with
  | exhausted hsel _ =>
    obtain ⟨steps, hsteps⟩ := hselect _ _ _ hsel
    exact ⟨steps, hsteps.within.answers _ q, hsteps.harmless hq⟩
  | failed _ haddress hask => exact ⟨_, askServer_evolves haddress hask⟩
  | settled _ haddress hask _ =>
    obtain ⟨hasked, hexplain⟩ := askServer_evolves haddress hask
    exact ⟨_, hasked.answers _ q, hexplain⟩

theorem frame_accounted {s : Session σ} {r : Except Failure RecordSet × Session σ}
    (h : R.frame select q s = some r) : R.Accounted q s r := by
  intro hq
  have hread : s.Evolves R.client (some q) [] (s.answers (R.now s) q).2 :=
    Session.Evolves.answers (.refl s) (R.now s) q
  rcases frame_cases h with ⟨-, rfl⟩ | ⟨-, last, hmoves, hfinish⟩
  · exact ⟨[], hread, List.forall_mem_nil _⟩
  · have hq' := hread.attempted q hq
    obtain ⟨steps, hsteps, hharmless⟩ := Moves.evolves hselect hmoves hq'
    obtain ⟨later, hlater, hexplain⟩ := hfinish.evolves hselect (hsteps.attempted q hq')
    exact ⟨steps ++ later, (hread.trans hsteps).trans hlater, hexplain.append hharmless⟩

end Frames

/-- A frame, with all frames nested in it, is accounted for by the steps in the history. -/
theorem resolve_accounted {budget : Nat} {s : Session σ}
    {r : Except Failure RecordSet × Session σ} (h : R.resolve budget q s = some r) :
    R.Accounted q s r := by
  refine resolve_induction (motive := R.Accounted) ?_ h
  intro resolve? hnested q s r hframe
  exact frame_accounted (selectServers_accounted hnested q) hframe

end Resolver

end IterativeDns
