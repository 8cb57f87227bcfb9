import IterativeDns.Proofs.Alias.Closure
import IterativeDns.Proofs.Cache.Views
import IterativeDns.Proofs.Lookup.Positions

/-!
# Lookups that look alike

Two lookups that start alike in a `View` go on alike: whatever step one takes, the other takes a
step as well and is at a position that looks alike again (`Step.resembles`). They then have asked
the same questions of the same servers, their caches look alike, and they end with the same result
or do not end at all.

What has to look alike to begin with are the question, the cache, and the outcomes of the clients
(`Resolver.Resembles`), whose states may be of different kinds and are tied by a relation.

The one place where the lookups need not be in step are servers without an address. Such servers
may come in another order in the two lookups; they are taken up without being asked, so within a
round only the servers that can be asked are marked alike (`Stage.Resembles`), and by its end all
of them are.
-/

namespace IterativeDns

open Alias (SameResult)
open Cache (InStep Aligned)

/-! ### Answers -/

/-- Copies of a record belong to the answers of the same questions. -/
theorem Record.isAnswer_eq_of_key_eq {p q : Question} (hkey : p.key = q.key) {a b : Record}
    (h : a.identity = b.identity) : a.isAnswer p = b.isAnswer q := by
  rw [Bool.eq_iff_iff, isAnswer_iff, isAnswer_iff, Record.key_eq_of_identity_eq h, hkey,
    Question.key_withType_congr hkey]

theorem RecordSet.Alike.isSettledBy_eq {s t : RecordSet} (h : s.Alike t) {p q : Question}
    (hkey : p.key = q.key) : p.isSettledBy s = q.isSettledBy t := by
  have hsettles : ∀ {s t : RecordSet} {p q : Question}, s.Alike t → p.key = q.key →
      p.isSettledBy s = true → q.isSettledBy t = true := by
    intro s t p q h hkey hs
    obtain ⟨r, hr, hanswer⟩ := Question.isSettledBy_iff.1 hs
    obtain ⟨x, hx, hi⟩ := h.exists_mem hr
    refine Question.isSettledBy_iff.2 ⟨x, hx, ?_⟩
    rwa [Record.isAnswer_eq_of_key_eq hkey.symm hi]
  rw [Bool.eq_iff_iff]
  exact ⟨hsettles h hkey, hsettles h.symm hkey.symm⟩

theorem Cache.Resembles.answers {V : View} {c d : Cache} (h : c.Resembles V d) {now : Instant}
    {p q : Question} (hkey : p.key = q.key) : (c.answers now p).1.Alike (d.answers now q).1 := by
  rw [fst_answers, fst_answers, Question.recordType_eq_of_key_eq hkey]
  split
  · exact h.live hkey
  · exact (h.live hkey).union (h.live (Question.key_withType_congr hkey _))

/-! ### Sessions -/

/-- The call of the client that a step is: what counts of the question, and whom it was put to. -/
def LookupStep.call? (V : View) : LookupStep → Option (V.QuestionView × Option Address)
  | selected .. => none
  | asked q server _ => some (V.question q, server.address?)

variable {σ τ : Type} {V : View} {tied : σ → τ → Prop}

namespace Session

/-- The calls of the client so far. -/
def calls (V : View) (s : Session σ) : List (V.QuestionView × Option Address) :=
  s.history.filterMap (LookupStep.call? V)

/-- Two sessions that look alike. -/
structure Resembles (V : View) (tied : σ → τ → Prop) (s : Session σ) (t : Session τ) : Prop where
  client : tied s.client t.client
  cache : s.cache.Resembles V t.cache
  attempted : ∀ q, s.hasAttempted q = t.hasAttempted q
  calls : s.calls V = t.calls V

section Resembles

variable {s : Session σ} {t : Session τ} {p q : Question}

/-- Reading the caches changes nothing. -/
theorem Resembles.read (h : s.Resembles V tied t) {c d : Cache}
    (hc : c.entries = s.cache.entries) (hd : d.entries = t.cache.entries) :
    Resembles V tied { s with cache := c } { t with cache := d } :=
  ⟨h.client, h.cache.congr hc hd, h.attempted, h.calls⟩

theorem Resembles.answers (h : s.Resembles V tied t) (now : Instant) (hkey : p.key = q.key) :
    (s.answers now p).1.Alike (t.answers now q).1 ∧
      (s.answers now p).2.Resembles V tied (t.answers now q).2 :=
  ⟨h.cache.answers hkey, h.read (s.cache.entries_answers now p) (t.cache.entries_answers now q)⟩

theorem Resembles.knownAddresses (h : s.Resembles V tied t) (now : Instant)
    {nameservers nameservers' : List Record}
    (hns : InStep Record.target? nameservers nameservers') (useIpv6 : Bool) :
    Aligned Record.address? (s.knownAddresses now nameservers useIpv6).1
        (t.knownAddresses now nameservers' useIpv6).1 ∧
      (s.knownAddresses now nameservers useIpv6).2.Resembles V tied
        (t.knownAddresses now nameservers' useIpv6).2 :=
  ⟨h.cache.knownAddresses hns useIpv6,
    h.read (s.cache.entries_knownAddresses ..) (t.cache.entries_knownAddresses ..)⟩

theorem Resembles.attempt (h : s.Resembles V tied t) (hkey : p.key = q.key) :
    (s.attempt p).Resembles V tied (t.attempt q) where
  client := h.client
  cache := h.cache
  attempted x := by
    rw [Bool.eq_iff_iff, hasAttempted_attempt, hasAttempted_attempt, h.attempted,
      Question.sameAs_iff, Question.sameAs_iff, hkey]
  calls := h.calls

theorem calls_record (s : Session σ) (step : LookupStep) :
    (s.record step).calls V = s.calls V ++ (step.call? V).toList := by
  rw [calls, record, List.filterMap_append]
  cases h : step.call? V <;> simp [calls, h]

/-- The note of a selection is no call. -/
theorem Resembles.select (h : s.Resembles V tied t) {before after before' after' : Snapshot}
    {servers servers' : List Record} :
    (s.record (.selected p before after servers)).Resembles V tied
      (t.record (.selected q before' after' servers')) where
  client := h.client
  cache := h.cache
  attempted := h.attempted
  calls := by
    rw [calls_record, calls_record, h.calls]
    rfl

end Resembles

end Session

/-! ### Outcomes -/

/-- Outcomes of an exchange that look alike. -/
inductive View.SameOutcome (V : View) :
    Except Failure Reply → Except Failure Reply → Prop where
  | error (e : Failure) : V.SameOutcome (.error e) (.error e)
  | silence : V.SameOutcome (.ok .silence) (.ok .silence)
  | message {m m' : Message} (hcode : m.responseCode = m'.responseCode)
      (hrecords : V.SameLast m.learnable m'.learnable) :
      V.SameOutcome (.ok (.message m)) (.ok (.message m'))

/-- What has been learned from exchanges whose outcomes look alike. -/
inductive View.SameGain (V : View) :
    Except Failure (Option (List Record)) → Except Failure (Option (List Record)) → Prop where
  | failed (e : Failure) : V.SameGain (.error e) (.error e)
  | silent : V.SameGain (.ok none) (.ok none)
  | told {rs rs' : List Record} (h : V.SameLast rs rs') :
      V.SameGain (.ok (some rs)) (.ok (some rs'))

namespace Resolver

variable {R : Resolver σ} {R' : Resolver τ}

/-- Two resolvers of one kind, whose clients have outcomes that look alike at the same instants. -/
structure Resembles (V : View) (tied : σ → τ → Prop) (R : Resolver σ) (R' : Resolver τ) :
    Prop where
  clock : ∀ x y, tied x y → R.client.now x = R'.client.now y
  useIpv6 : R.useIpv6 = R'.useIpv6
  budget : R.budget = R'.budget
  client : ∀ p q address x y, V.question p = V.question q → tied x y →
    V.SameOutcome (R.client.ask p address x).1.outcome (R'.client.ask q address y).1.outcome ∧
      tied (R.client.ask p address x).2 (R'.client.ask q address y).2

theorem Resembles.now_eq (hR : R.Resembles V tied R') {s : Session σ} {t : Session τ}
    (h : s.Resembles V tied t) : R.now s = R'.now t :=
  hR.clock _ _ h.client

/-- Two sessions read the same answers, each at the instant it is for it. -/
theorem answers_resembles (hR : R.Resembles V tied R') {s : Session σ} {t : Session τ}
    (h : s.Resembles V tied t) {p q : Question} (hkey : p.key = q.key) :
    (s.answers (R.now s) p).1.Alike (t.answers (R'.now t) q).1 ∧
      (s.answers (R.now s) p).2.Resembles V tied (t.answers (R'.now t) q).2 := by
  rw [← hR.now_eq h]
  exact h.answers (R.now s) hkey

/-! ### Asking -/

section Asking

variable {s : Session σ} {t : Session τ} {p q : Question} {x y : Record} {address : Address}

theorem digest_resembles (h : s.Resembles V tied t) {outcome outcome' : Except Failure Reply}
    (houtcome : V.SameOutcome outcome outcome') (address : Address) :
    V.SameGain (s.digest address outcome).1 (t.digest address outcome').1 ∧
      (s.digest address outcome).2.Resembles V tied (t.digest address outcome').2 := by
  cases houtcome with
  | error e => exact ⟨.failed e, h⟩
  | silence => exact ⟨.silent, h⟩
  | message hcode hrecords =>
    simp only [Session.digest, hcode]
    split
    · exact ⟨.failed _, h.client, h.cache, h.attempted, h.calls⟩
    · exact ⟨.told hrecords, h.client, h.cache.addAll hrecords, h.attempted, h.calls⟩

theorem askServer_resembles (hR : R.Resembles V tied R') (hq : V.question p = V.question q)
    (hx : x.address? = some address) (hy : y.address? = some address)
    (h : s.Resembles V tied t) :
    V.SameGain (R.askServer p x address s).1 (R'.askServer q y address t).1 ∧
      (R.askServer p x address s).2.Resembles V tied (R'.askServer q y address t).2 := by
  obtain ⟨houtcome, hclient⟩ := hR.client p q address s.client t.client hq h.client
  have hasked : ((R.exchange p address s).2.record (R.stepOf p x address s)).Resembles V tied
      ((R'.exchange q address t).2.record (R'.stepOf q y address t)) := by
    refine ⟨hclient, h.cache, h.attempted, ?_⟩
    have hcalls : (R.exchange p address s).2.calls V = (R'.exchange q address t).2.calls V :=
      h.calls
    rw [Session.calls_record, Session.calls_record, hcalls, stepOf, stepOf, LookupStep.call?,
      LookupStep.call?, hq, hx, hy]
  exact digest_resembles hasked houtcome address

end Asking

/-! ### Frames -/

structure Frame.Alike (f g : Frame) : Prop where
  answers : f.answers.Alike g.answers
  tried : f.tried.Alike g.tried

theorem Frame.gather_alike {f g : Frame} (h : f.answers.Alike g.answers) {p q : Question}
    (hkey : p.key = q.key) {rs rs' : List Record} (hrs : V.SameLast rs rs')
    {cached cached' : RecordSet} (hcached : cached.Alike cached') :
    (f.gather p rs cached).Alike (g.gather q rs' cached') := by
  have hmember : ∀ (log : List Record) (p : Question) (r : Record),
      (∃ x ∈ log.filter (Record.isAnswer p), x.identity = r.identity) ↔
        r.isAnswer p = true ∧ ∃ x ∈ log, x.identity = r.identity := by
    intro log p r
    simp only [List.mem_filter]
    constructor
    · rintro ⟨x, ⟨hx, hanswer⟩, hi⟩
      exact ⟨Record.isAnswer_congr hi p ▸ hanswer, x, hx, hi⟩
    · rintro ⟨hanswer, x, hx, hi⟩
      exact ⟨x, ⟨hx, Record.isAnswer_congr hi p ▸ hanswer⟩, hi⟩
  refine (h.insertAll fun r => ?_).union hcached
  rw [hmember, hmember, hrs.exists_identity_iff, Record.isAnswer_eq_of_key_eq hkey rfl]

/-- Two stages of a round that look alike. The servers that can be asked are marked alike, and
those that have been taken up or will be are the same. -/
structure Stage.Resembles (V : View) (tied : σ → τ → Prop) (a : Stage σ) (b : Stage τ) :
    Prop where
  pending : InStep Record.address? a.pending b.pending
  answers : a.frame.answers.Alike b.frame.answers
  tried : ∀ r : Record, r.address? ≠ none →
    a.frame.tried.contains r = b.frame.tried.contains r
  reached : ∀ r : Record,
    (a.frame.tried.contains r = true ∨ r.identity ∈ a.pending.map Record.identity) ↔
      (b.frame.tried.contains r = true ∨ r.identity ∈ b.pending.map Record.identity)
  session : a.session.Resembles V tied b.session

section Stage

variable {f g : Frame} {s : Session σ} {t : Session τ}

/-- A round begins. -/
theorem Stage.Resembles.of_aligned (hframe : f.Alike g) {servers servers' : List Record}
    (hservers : Aligned Record.address? servers servers') (hs : s.Resembles V tied t) :
    Stage.Resembles V tied ⟨servers, f, s⟩ ⟨servers', g, t⟩ where
  pending := hservers.2
  answers := hframe.answers
  tried r _ := hframe.tried r
  reached r := by rw [hframe.tried r, hservers.1.mem_iff]
  session := hs

/-- Between rounds all servers are marked alike. -/
theorem Stage.Resembles.frame_alike (h : Stage.Resembles V tied ⟨[], f, s⟩ ⟨[], g, t⟩) :
    f.Alike g where
  answers := h.answers
  tried r := by
    have hreached := h.reached r
    simp only [List.map_nil, List.not_mem_nil, or_false] at hreached
    rwa [Bool.eq_iff_iff]

variable {x y : Record} {xs ys : List Record}

/-- Each lookup has taken up a server. -/
theorem Stage.Resembles.mark (h : Stage.Resembles V tied ⟨x :: xs, f, s⟩ ⟨y :: ys, g, t⟩)
    {answers answers' : RecordSet} (hanswers : answers.Alike answers') {s' : Session σ}
    {t' : Session τ} (hs : s'.Resembles V tied t') :
    Stage.Resembles V tied ⟨xs, { f.mark x with answers }, s'⟩
      ⟨ys, { g.mark y with answers := answers' }, t'⟩ := by
  obtain ⟨hpending, -, htried, hreached, -⟩ := h
  obtain ⟨hxy, hrest⟩ := List.forall₂_cons.1 hpending
  constructor
  case pending => exact hrest
  case answers => exact hanswers
  case session => exact hs
  case tried =>
    intro r hr
    have hmarked : x.identity = r.identity ↔ y.identity = r.identity := by
      rcases hxy with hi | ⟨hx, hy⟩
      · rw [hi]
      · -- neither is a server that can be asked
        have hother : ∀ {z : Record}, z.address? = none → z.identity ≠ r.identity :=
          fun hz hi => hr (Record.address?_congr hi ▸ hz)
        exact iff_of_false (hother hx) (hother hy)
    rw [Bool.eq_iff_iff]
    simp only [Frame.mark, RecordSet.contains_insert, htried r hr, hmarked]
  case reached =>
    intro r
    have hreached := hreached r
    simp only [List.map_cons, List.mem_cons] at hreached
    simp only [Frame.mark, RecordSet.contains_insert, or_assoc, eq_comm (b := r.identity)]
    exact hreached

/-- Where asking one server of a round leads, with the servers that are left. -/
inductive RoundEnd.Resembles (V : View) (tied : σ → τ → Prop) (xs ys : List Record) :
    RoundEnd × Session σ → RoundEnd × Session τ → Prop where
  | goesOn {f g : Frame} {s : Session σ} {t : Session τ}
      (h : Stage.Resembles V tied ⟨xs, f, s⟩ ⟨ys, g, t⟩) :
      RoundEnd.Resembles V tied xs ys (.goesOn f, s) (.goesOn g, t)
  | finished {result result' : Except Failure RecordSet} {s : Session σ} {t : Session τ}
      (hresult : SameResult result result') (hs : s.Resembles V tied t) :
      RoundEnd.Resembles V tied xs ys (.finished result, s) (.finished result', t)

theorem askServers_resembles (hR : R.Resembles V tied R') {p q : Question}
    (hq : V.question p = V.question q)
    (h : Stage.Resembles V tied ⟨x :: xs, f, s⟩ ⟨y :: ys, g, t⟩) :
    RoundEnd.Resembles V tied xs ys (R.askServers p [x] f s) (R'.askServers q [y] g t) := by
  have hkey := V.key_eq hq
  have hxy := (List.forall₂_cons.1 h.pending).1
  cases hx : x.address? with
  | none =>
    have hy : y.address? = none := by
      rcases hxy with hi | ⟨-, hy⟩
      · rw [← Record.address?_congr hi, hx]
      · exact hy
    rw [askServers_of_address?_eq_none hx, askServers_of_address?_eq_none hy]
    exact .goesOn (h.mark h.answers h.session)
  | some address =>
    have hi : x.identity = y.identity := by
      rcases hxy with hi | ⟨hnone, -⟩
      · exact hi
      · rw [hx] at hnone
        cases hnone
    have hy : y.address? = some address := (Record.address?_congr hi).symm.trans hx
    have hsame : f.tried.contains x = g.tried.contains y := by
      rw [← RecordSet.contains_congr hi]
      exact h.tried x (hx ▸ Option.some_ne_none address)
    cases htried : f.tried.contains x with
    | true =>
      have hgoesOn := h.mark h.answers h.session
      rw [Frame.mark_of_tried htried, Frame.mark_of_tried (hsame ▸ htried)] at hgoesOn
      rw [askServers_of_tried htried, askServers_of_tried (hsame ▸ htried)]
      exact .goesOn hgoesOn
    | false =>
      rw [askServers_of_untried htried hx, askServers_of_untried (hsame ▸ htried) hy]
      obtain ⟨hgain, hs⟩ := askServer_resembles hR hq hx hy h.session
      generalize R.askServer p x address s = asked at hgain hs
      generalize R'.askServer q y address t = asked' at hgain hs
      obtain ⟨gain, s'⟩ := asked
      obtain ⟨gain', t'⟩ := asked'
      cases hgain with
      | failed e => exact .finished rfl hs
      | silent => exact .goesOn (h.mark h.answers hs)
      | told hrecords =>
        obtain ⟨hcached, hread⟩ := answers_resembles hR hs hkey
        have hanswers := Frame.gather_alike h.answers hkey hrecords hcached
        simp only [afterAsking, hanswers.isSettledBy_eq hkey]
        split
        · exact .finished hanswers hread
        · exact .goesOn (h.mark hanswers hread)

end Stage

end Resolver

end IterativeDns
