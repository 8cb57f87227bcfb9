import IterativeDns.Proofs.Lookup.Budget
import IterativeDns.Proofs.Lookup.OpenFrames

/-!
# Failures of a lookup

A frame fails with the first exchange of its own that fails, and whoever looked up an address in
it takes this for an address that is not known. So a lookup fails if and only if an exchange for
the very question that was looked up fails, and it makes no exchange after that
(`fails_iff_own_exchange_failed`). The failures of nested frames stay where they are: these
frames ask other questions.

It does not matter whether the lookup would otherwise come to an end: the outermost open frame is
always the one for the question that was looked up (`Outermost`), so an exchange for this question
that fails closes it, and the lookup is over.

Whatever the result, the cache has been told the records of every response without an error, and
nothing else.
-/

namespace IterativeDns.Resolver

variable {σ : Type} {R : Resolver σ}

/-! ### The outermost frame -/

/-- If a frame is open, the outermost one is for the question. -/
def Outermost (q : Question) (a : Position σ) : Prop :=
  ∀ f, [f] <:+ a.frames → f.question = q

section Outermost

variable {q : Question} {steps more : List LookupStep} {a b : Position σ}

theorem outermost_start (R : Resolver σ) (q : Question) (s : Session σ) :
    Outermost q (R.start q s) := by
  intro f hf
  rw [List.mem_singleton.1 (hf.mem List.mem_cons_self : f ∈ [(⟨q, R.budget, .empty⟩ : OpenFrame)])]

theorem Outermost.turn (h : Outermost q a) (hturn : Turn a b more) : Outermost q b := by
  intro g hg
  cases hturn with
  | quiet hframes _ _ => exact h g (hg.trans hframes)
  | opens _ _ hframe _ _ _ _ hframes _ =>
    -- the frame that was opened is not the only one
    rw [hframes, ← hframe, List.suffix_cons_iff] at hg
    rcases hg with heq | hg
    · rw [hframe] at heq
      cases heq
    · exact h g hg
  | @takesUp f fs _ hframe hframes _ _ _ =>
    rcases List.suffix_cons_iff.1 (hg.trans hframes) with heq | hg
    · obtain ⟨rfl, rfl⟩ := List.cons.inj heq
      exact h f (hframe ▸ List.suffix_refl _)
    · exact h g (hframe ▸ hg.trans (List.suffix_cons _ _))

/-- The frame for the question is the outermost one, so it is the only one when it is the
innermost. -/
theorem Outermost.eq_nil (h : Outermost q a) (horderly : R.Orderly steps a) {f : OpenFrame}
    {fs : List OpenFrame} (hframes : a.frames = f :: fs) (hf : f.question = q) : fs = [] := by
  rcases List.eq_nil_or_concat fs with rfl | ⟨inner, last, rfl⟩
  · rfl
  · rw [List.concat_eq_append] at hframes
    have hlast : last.question = q := h last (hframes ▸ List.suffix_append (f :: inner) [last])
    have hdistinct := horderly.distinct
    rw [hframes, List.map_cons, List.nodup_cons] at hdistinct
    refine absurd (List.mem_map.2 ⟨last, ?_, ?_⟩) hdistinct.1
    · exact List.mem_append_right _ List.mem_cons_self
    · rw [hlast, hf]

/-- An exchange for the question that fails ends the lookup. -/
theorem Turn.eq_closed (hturn : Turn a b more) (houtermost : Outermost q a)
    (horderly : R.Orderly steps a) {step : LookupStep} (hstep : step ∈ more) {e : Failure}
    (hfailure : step.failure? q = some e) : b = .closed (.error e) [] b.session := by
  have hasked := LookupStep.asked?_of_failure? hfailure
  cases hturn with
  | quiet _ hsteps _ =>
    rw [(hsteps step hstep).1] at hasked
    cases hasked
  | opens hsteps =>
    subst hsteps
    cases hstep
  | @takesUp f fs server hframe _ hsteps _ hfails =>
    have hf : f.question = q := by
      rcases hsteps with rfl | ⟨-, outcome, rfl⟩
      · cases hstep
      · rw [List.mem_singleton.1 hstep] at hasked
        exact Option.some.inj hasked
    obtain ⟨outer, hb, hfs⟩ := hfails step hstep e (hf.symm ▸ hfailure)
    rw [houtermost.eq_nil horderly hframe hf, List.nil_eq, List.map_eq_nil_iff] at hfs
    subst hfs
    exact hb

end Outermost

/-- At every point of a lookup: if an exchange for its own question has failed, the lookup is over
and has failed with it. -/
theorem Run.closed_of_failure? {q : Question} {s : Session σ} {a : Position σ}
    (h : R.Run (R.start q s) a) :
    ∃ steps, s.Follows R.client steps a.session ∧ R.Orderly steps a ∧ Outermost q a ∧
      ∀ step ∈ steps, ∀ e, step.failure? q = some e → a = .closed (.error e) [] a.session := by
  induction h with
  | refl =>
    exact ⟨[], ⟨(List.append_nil _).symm, rfl, .refl _⟩, orderly_start R q s,
      outermost_start R q s, List.forall_mem_nil _⟩
  | tail _ hstep ih =>
    obtain ⟨steps, hfollows, horderly, houtermost, hclosed⟩ := ih
    obtain ⟨more, hmore, hturn⟩ := hstep.turn
    refine ⟨steps ++ more, hfollows.trans hmore, horderly.turn hturn, houtermost.turn hturn, ?_⟩
    intro step hmem e hfailure
    rcases List.mem_append.1 hmem with hmem | hmem
    · rw [hclosed step hmem e hfailure] at hstep
      exact absurd hstep not_step_closed
    · exact hturn.eq_closed houtermost horderly hmem hfailure

/-! ### Main result -/

/-- A lookup fails exactly if an exchange for its own question does; that exchange is the last
step. What is asked otherwise are different questions. The cache is the one of the beginning and
all that the responses without an error told. And no lookup goes on after an exchange for its own
question has failed: wherever it stands then, it has ended with that failure, and so it does within
every limit of rounds that is large enough. -/
theorem fails_iff_own_exchange_failed {q : Question} {s : Session σ} :
    (∀ result t, R.lookup q s = some (result, t) →
      ∃ steps, t.history = s.history ++ steps ∧ R.client.Serves s.client steps t.client ∧
        (∀ e, result = .error e ↔ ∃ step ∈ steps, step.failure? q = some e) ∧
        (∀ before step after, steps = before ++ step :: after →
          (step.failure? q).isSome = true → after = []) ∧
        (∀ step ∈ steps, ∀ p, step.asked? = some p → p = q ∨ q.sameAs p = false) ∧
        t.cache.SameButReads (s.cache.addAll (steps.flatMap LookupStep.told))) ∧
    ∀ a, R.Run (R.start q s) a →
      ∃ steps, a.session.history = s.history ++ steps ∧
        R.client.Serves s.client steps a.session.client ∧
        a.session.cache.SameButReads (s.cache.addAll (steps.flatMap LookupStep.told)) ∧
        ∀ step ∈ steps, ∀ e, step.failure? q = some e →
          ∃ enough, ∀ limit, enough ≤ limit →
            (R.withRounds limit).lookup q s = some (.error e, a.session) := by
  constructor
  · intro result t h
    have hq : ({ s with attempted := [q] } : Session σ).hasAttempted q = true :=
      Session.hasAttempted_singleton.trans q.sameAs_refl
    obtain ⟨steps, hsteps, hexplain⟩ := resolve_accounted h hq
    refine ⟨steps, hsteps.history, hsteps.served, hexplain.eq_error_iff, ?_, ?_, hsteps.cache⟩
    · intro before step after hsplit hfailed
      obtain ⟨e, he⟩ := Option.isSome_iff_exists.1 hfailed
      rw [hsplit] at hexplain
      exact hexplain.eq_nil_of_failure? he
    · intro step hstep p hp
      rcases hsteps.asks step hstep p hp with hown | hnew
      · exact .inl (Option.some.inj hown).symm
      · exact .inr (Session.hasAttempted_singleton.symm.trans hnew)
  · intro a h
    obtain ⟨steps, hfollows, -, -, hclosed⟩ := h.closed_of_failure?
    refine ⟨steps, hfollows.history, hfollows.served, hfollows.cache, ?_⟩
    intro step hstep e hfailure
    exact Run.exists_forall_lookup (hclosed step hstep e hfailure ▸ h)

/-! ### Delegations without addresses

The zone `z` is served by `a.u` and `b.u`, whose addresses are not known. The server of `u` fails
when it is asked for the first and knows the second. The server of `z` refuses `r.z`. Every answer
takes half a second. -/

namespace Glueless

open Crossing (delegation located)

def question (name : String) : Question :=
  ⟨name, .a, .«in»⟩

/-- A response with a verdict and answers. -/
def response (rcode : UInt8) (answers : List Record) : Message :=
  ⟨0, { response := true, rcode }, none, answers, [], []⟩

/-- The address of `q.z`, good for five minutes. -/
def sought : Record :=
  .learned 0 (question "q.z") 300 (.address (.ofQuad 10 0 0 9))

/-- Servers answer by the name asked for. -/
def client : Client Instant :=
  .timed fun q _ _ =>
    let responses := [("a.u", response 2 [located "a.u" 7]), ("b.u", response 0 [located "b.u" 2]),
      ("q.z", response 0 [sought]), ("r.z", response 5 [located "r.z" 9])]
    match responses.lookup q.name with
    | some m => (⟨.ok (.message m), []⟩, 500)
    | none => (⟨.ok .silence, []⟩, 5000)

def resolver : Resolver Instant :=
  ⟨client, false, 1, 2⟩

/-- The delegations of the zone `z`. -/
def delegations : List Record :=
  [delegation "z" "a.u", delegation "z" "b.u"]

def start : Session Instant where
  client := 0
  cache := ({} : Cache).addAll (delegations ++ [delegation "u" "m.u", located "m.u" 1])

/-- The first frame, once it has found nothing in the cache. -/
def opened (name : String) : Session Instant :=
  ({ start with attempted := [question name] }.answers 0 (question name)).2

variable {name : String}

theorem lookup_eq (h : name = "q.z" ∨ name = "r.z") :
    resolver.lookup (question name) start =
      resolver.rounds (resolver.selectServers (some (resolver.resolve 0)) (question name))
        (question name) 2 ⟨.empty, .empty⟩ (opened name) := by
  rcases h with rfl | rfl <;> rfl

theorem bestNameservers_opened (h : name = "q.z" ∨ name = "r.z") :
    ((opened name).bestNameservers 0 (question name)).1 = delegations := by
  have hread : ((opened name).bestNameservers 0 (question name)).1 =
      Cache.byTarget delegations := by
    rcases h with rfl | rfl <;> rfl
  rw [hread]
  exact List.mergeSort_of_pairwise (by decide)

/-- The first round begins with looking up addresses. -/
theorem selectServers_opened (h : name = "q.z" ∨ name = "r.z") :
    resolver.selectServers (some (resolver.resolve 0)) (question name) (opened name) =
      (resolver.findAddresses (resolver.resolve 0) .«in» delegations delegations
        (((opened name).bestNameservers 0 (question name)).2.knownAddresses 0 delegations
          false).2).map fun r =>
        (r.1, r.2.record (.selected (question name) (resolver.snapshot (opened name))
          (resolver.snapshot r.2) r.1)) := by
  refine resolver.selectServers_of_unknown (bestNameservers_opened h) ?_ (resolver.resolve 0)
  rcases h with rfl | rfl <;> decide +kernel

end Glueless

/-- The refusal of `r.z` is the last step of its lookup, which does not fail with the failure of
the server of `u` before. -/
theorem Glueless.refusal_comes_last :
    ∃ t before step,
      resolver.lookup (question "r.z") start =
          some (.error (.errorResponse .refused "10.0.0.2"), t) ∧
        t.history = before ++ [step] ∧
        step.failure? (question "r.z") = some (.errorResponse .refused "10.0.0.2") := by
  have hresult : (resolver.lookup (question "r.z") start).map Prod.fst =
      some (.error (.errorResponse .refused "10.0.0.2")) := by
    rw [lookup_eq (.inr rfl), rounds, selectServers_opened (.inr rfl)]
    decide +kernel
  obtain ⟨⟨result, t⟩, hlookup, rfl⟩ := Option.map_eq_some_iff.1 hresult
  obtain ⟨steps, hhistory, -, hfails, hlast, -, -⟩ := fails_iff_own_exchange_failed.1 _ _ hlookup
  obtain ⟨step, hmem, hstep⟩ := (hfails _).1 rfl
  obtain ⟨before, after, rfl⟩ := List.append_of_mem hmem
  have hafter := hlast before step after rfl (by rw [hstep]; rfl)
  subst hafter
  exact ⟨t, before, step, hlookup, hhistory, hstep⟩

end IterativeDns.Resolver
