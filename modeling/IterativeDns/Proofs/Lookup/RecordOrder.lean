import IterativeDns.Proofs.Lookup.Simulation

/-!
# The order of records in lookups

Records come in lists and are kept in sets, and the order in which a set lists its members means
nothing. No lookup depends on it (`recordOrder_irrelevant`): if responses bring their records in
another order, or in other sections, and if the sets of a lookup are put into any other order
before each of its actions, the lookup asks the same servers the same questions, ends with the same
result, and leaves the same records in the cache.

What fixes the order in which servers are asked are the names and addresses that records hold, so
nothing but records without any of these can change places. A response must not bring one record
twice: the copy that comes last is the one that is kept.

A *shuffled* step is a step after the sets have been put into another order. Within one step no set
is listed twice, but for the addresses of a name that several nameservers share, and the second
time none of them is new. The lists of servers and nameservers are no sets and keep their order.
-/

namespace IterativeDns

open Alias (SameResult)

/-! ### The same in another order -/

/-- The sets have the same members. -/
def RecordSet.Reorders (s t : RecordSet) : Prop :=
  s.toList.Perm t.toList

/-- The second cache is well-formed and holds the records of the first. -/
structure Cache.Reorders (c d : Cache) : Prop where
  wellFormed : d.WellFormed
  perm : c.records.Perm d.records

/-- Two responses bring the same records, in whatever order and sections. -/
structure Message.Reorders (m m' : Message) : Prop where
  id : m.id = m'.id
  flags : m.flags = m'.flags
  question : m.question = m'.question
  perm : m.allRecords.Perm m'.allRecords

/-- Two exchanges ended in the same way, but for the order of records. -/
inductive Reply.Reorders : Except Failure Reply → Except Failure Reply → Prop where
  | error (e : Failure) : Reorders (.error e) (.error e)
  | silence : Reorders (.ok .silence) (.ok .silence)
  | message {m m' : Message} (h : m.Reorders m') : Reorders (.ok (.message m)) (.ok (.message m'))

variable {σ τ : Type}

/-- In states that are tied to each other two clients have outcomes that are the same but for the
order of records, if they are asked the same question; and their states stay tied. -/
def Client.Reorders (tied : σ → τ → Prop) (C : Client σ) (C' : Client τ) : Prop :=
  ∀ q address x y, tied x y →
    Reply.Reorders (C.ask q address x).1.outcome (C'.ask q address y).1.outcome ∧
      tied (C.ask q address x).2 (C'.ask q address y).2

/-- No response brings a record twice. -/
def Client.NeverRepeats (C : Client σ) : Prop :=
  ∀ q address x m, (C.ask q address x).1.outcome = .ok (.message m) →
    (m.allRecords.map Record.identity).Nodup

structure Session.Reorders (s t : Session σ) : Prop where
  client : s.client = t.client
  cache : s.cache.Reorders t.cache
  attempted : s.attempted.Perm t.attempted
  history : s.history = t.history

namespace Resolver

structure Frame.Reorders (f g : Frame) : Prop where
  answers : f.answers.Reorders g.answers
  tried : f.tried.Reorders g.tried

structure Waiting.Reorders (w w' : Waiting) : Prop where
  question : w.question = w'.question
  budget : w.budget = w'.budget
  frame : w.frame.Reorders w'.frame
  began : w.before.now = w'.before.now
  before : w.before.cache.Reorders w'.before.cache
  nameservers : w.nameservers = w'.nameservers
  rest : w.rest = w'.rest

/-- The positions are the same but for the order of the members of their sets. -/
inductive Position.Reorders : Position σ → Position σ → Prop where
  | opening {q : Question} {budget : Nat} {outer outer' : List Waiting} {s t : Session σ}
      (hs : s.Reorders t) (houter : List.Forall₂ Waiting.Reorders outer outer') :
      Position.Reorders (.opening q budget outer s) (.opening q budget outer' t)
  | asking {q : Question} {budget : Nat} {outer outer' : List Waiting} {servers : List Record}
      {f g : Frame} {s t : Session σ} (hf : f.Reorders g) (hs : s.Reorders t)
      (houter : List.Forall₂ Waiting.Reorders outer outer') :
      Position.Reorders (.asking q budget ⟨servers, f, s⟩ outer)
        (.asking q budget ⟨servers, g, t⟩ outer')
  | seeking {w w' : Waiting} {outer outer' : List Waiting} {s t : Session σ}
      (hw : w.Reorders w') (hs : s.Reorders t)
      (houter : List.Forall₂ Waiting.Reorders outer outer') :
      Position.Reorders (.seeking w outer s) (.seeking w' outer' t)
  | selected {q : Question} {budget : Nat} {outer outer' : List Waiting} {servers : List Record}
      {f g : Frame} {s t : Session σ} (hf : f.Reorders g) (hs : s.Reorders t)
      (houter : List.Forall₂ Waiting.Reorders outer outer') :
      Position.Reorders (.selected q budget f servers outer s)
        (.selected q budget g servers outer' t)
  | failed {e : Failure} {outer outer' : List Waiting} {s t : Session σ} (hs : s.Reorders t)
      (houter : List.Forall₂ Waiting.Reorders outer outer') :
      Position.Reorders (.closed (.error e) outer s) (.closed (.error e) outer' t)
  | found {answers answers' : RecordSet} {outer outer' : List Waiting} {s t : Session σ}
      (hanswers : answers.Reorders answers') (hs : s.Reorders t)
      (houter : List.Forall₂ Waiting.Reorders outer outer') :
      Position.Reorders (.closed (.ok answers) outer s) (.closed (.ok answers') outer' t)

/-- The sets are put into another order, and then a step is taken. -/
def ShuffledStep (R : Resolver σ) (a b : Position σ) : Prop :=
  ∃ c, a.Reorders c ∧ R.Step c b

end Resolver

/-! ### Order does not show -/

theorem RecordSet.Alike.reorders {s t u : RecordSet} (h : s.Alike t) (htu : t.Reorders u) :
    s.Alike u :=
  h.trans (alike_of_perm (htu.map Record.identity))

theorem Cache.Resembles.reorders {V : View} {c d e : Cache} (h : c.Resembles V d)
    (hde : d.Reorders e) : c.Resembles V e where
  left := h.left
  right := hde.wellFormed
  forth r hr := (h.forth r hr).imp fun _ h => ⟨hde.perm.mem_iff.1 h.1, h.2⟩
  back x hx := h.back x (hde.perm.mem_iff.2 hx)

theorem Session.Resembles.reorders {V : View} {tied : σ → τ → Prop} {s : Session σ}
    {t u : Session τ} (h : s.Resembles V tied t) (htu : t.Reorders u) : s.Resembles V tied u where
  client := htu.client ▸ h.client
  cache := h.cache.reorders htu.cache
  attempted q := by
    rw [h.attempted, hasAttempted, hasAttempted, htu.attempted.any_eq]
  calls := by rw [h.calls, Session.calls, Session.calls, htu.history]

namespace Resolver

variable {V : View} {tied : σ → τ → Prop} {R : Resolver σ} {R' : Resolver τ}

theorem Frame.Alike.reorders {f g k : Frame} (h : f.Alike g) (hgk : g.Reorders k) : f.Alike k :=
  ⟨h.answers.reorders hgk.answers, h.tried.reorders hgk.tried⟩

theorem Stage.Resembles.reorders {a : Stage σ} {servers : List Record} {f g : Frame}
    {s t : Session τ} (h : Stage.Resembles V tied a ⟨servers, f, s⟩) (hfg : f.Reorders g)
    (hst : s.Reorders t) : Stage.Resembles V tied a ⟨servers, g, t⟩ := by
  have htried : ∀ r, f.tried.contains r = g.tried.contains r :=
    RecordSet.alike_of_perm (hfg.tried.map Record.identity)
  refine ⟨h.pending, h.answers.reorders hfg.answers, ?_, ?_, h.session.reorders hst⟩
  · intro r hr
    exact (h.tried r hr).trans (htried r)
  · intro r
    rw [h.reached r, htried]

theorem Waiting.Resembles.reorders {w w' w'' : Waiting} (h : w.Resembles V w')
    (hr : w'.Reorders w'') : w.Resembles V w'' where
  question := hr.question ▸ h.question
  budget := h.budget.trans hr.budget
  frame := h.frame.reorders hr.frame
  nameservers := hr.nameservers ▸ h.nameservers
  rest := hr.rest ▸ h.rest

theorem Waiting.forall₂_reorders {ws ws' ws'' : List Waiting}
    (h : List.Forall₂ (Waiting.Resembles V) ws ws') (hr : List.Forall₂ Waiting.Reorders ws' ws'') :
    List.Forall₂ (Waiting.Resembles V) ws ws'' := by
  induction h generalizing ws'' with
  | nil =>
    cases hr
    exact .nil
  | cons hw _ ih =>
    cases hr with
    | cons hw' hrest => exact .cons (hw.reorders hw') (ih hrest)

/-- What looks alike does so in any order. -/
theorem Position.Resembles.reorders {a : Position σ} {b c : Position τ}
    (h : a.Resembles V tied b) (hbc : b.Reorders c) : a.Resembles V tied c := by
  cases hbc with
  | opening hs houter =>
    cases h with
    | opening hq h h' => exact .opening hq (h.reorders hs) (Waiting.forall₂_reorders h' houter)
  | asking hf hs houter =>
    cases h with
    | asking hq h h' => exact .asking hq (h.reorders hf hs) (Waiting.forall₂_reorders h' houter)
  | seeking hw hs houter =>
    cases h with
    | seeking hq h h' =>
      exact .seeking (hq.reorders hw) (h.reorders hs) (Waiting.forall₂_reorders h' houter)
  | selected hf hs houter =>
    cases h with
    | selected hq hframe hservers h h' =>
      exact .selected hq (hframe.reorders hf) hservers (h.reorders hs)
        (Waiting.forall₂_reorders h' houter)
  | failed hs houter =>
    cases h with
    | closed hresult h h' =>
      exact .closed hresult (h.reorders hs) (Waiting.forall₂_reorders h' houter)
  | found hanswers hs houter =>
    cases h with
    | @closed result _ _ _ _ _ hresult h h' =>
      cases result with
      | error _ => exact hresult.elim
      | ok _ =>
        exact .closed (RecordSet.Alike.reorders hresult hanswers) (h.reorders hs)
          (Waiting.forall₂_reorders h' houter)

/-- However a lookup is shuffled, the other one goes along without, step by step. -/
theorem inSteps_resembles_back (hR : R.Resembles V tied R') {n : Nat} {a : Position σ}
    {a' b' : Position τ} (h : a.Resembles V tied a')
    (hsteps : InSteps R'.ShuffledStep n a' b') :
    ∃ b, InSteps R.Step n a b ∧ b.Resembles V tied b' := by
  refine hsteps.exists_matching (r := fun b' (b : Position σ) => b.Resembles V tied b') ?_ h
  rintro b' d' b hb ⟨c', hreorders, hstep⟩
  exact hstep.resembles_back hR (hb.reorders hreorders)

end Resolver

/-! ### Responses -/

theorem Message.Reorders.sameLast {m m' : Message} (h : m.Reorders m')
    (hdistinct : (m.allRecords.map Record.identity).Nodup) :
    View.exact.SameLast m.learnable m'.learnable :=
  View.sameLast_of_perm (h.perm.filter _) ((List.filter_sublist.map _).nodup hdistinct)

theorem Reply.Reorders.sameOutcome {outcome outcome' : Except Failure Reply}
    (h : Reorders outcome outcome')
    (hdistinct : ∀ m, outcome = .ok (.message m) → (m.allRecords.map Record.identity).Nodup) :
    View.exact.SameOutcome outcome outcome' := by
  cases h with
  | error e => exact .error e
  | silence => exact .silence
  | message h =>
    exact .message (congrArg Flags.responseCode h.flags) (h.sameLast (hdistinct _ rfl))

namespace Resolver

variable {tied : σ → τ → Prop} {R : Resolver σ} {R' : Resolver τ}

/-! ### One response in two orders

The server of the zone `z` has two addresses. Whichever is asked, the response brings an answer and
the address of another server. -/

namespace Mixed

def sought : Record :=
  .learned 0 ⟨"q.z", .a, .«in»⟩ 300 (.address (.ofQuad 10 0 0 9))

def glue : Record :=
  .learned 0 ⟨"c.u", .a, .«in»⟩ 300 (.address (.ofQuad 10 0 0 3))

def response : Message :=
  ⟨0, { response := true }, none, [sought], [], [glue]⟩

/-- The same records in sections where they do not belong. -/
def disordered : Message :=
  ⟨0, { response := true }, none, [], [glue, sought], []⟩

/-- Every answer takes 20 milliseconds. -/
def client (m : Message) : Client Instant :=
  .timed fun _ _ _ => (⟨.ok (.message m), []⟩, 20)

def resolver (m : Message) : Resolver Instant :=
  ⟨client m, false, 1, 2⟩

/-- The server of the zone and its addresses. -/
def servers : List Record :=
  [.permanent ⟨"z", .ns, .«in»⟩ (.name "a.u"),
    .permanent ⟨"a.u", .a, .«in»⟩ (.address (.ofQuad 10 0 0 1)),
    .permanent ⟨"a.u", .a, .«in»⟩ (.address (.ofQuad 10 0 0 2))]

def question : Question :=
  ⟨"q.z", .a, .«in»⟩

def start : Session Instant where
  client := 0
  cache := ({} : Cache).addAll servers

/-- The frame of the lookup, once it has found nothing in the cache. -/
def opened : Session Instant :=
  ({ start with attempted := [question] }.answers 0 question).2

theorem lookup_eq :
    (resolver response).lookup question start =
      (resolver response).rounds
        ((resolver response).selectServers (some ((resolver response).resolve 0)) question)
        question 2 ⟨.empty, .empty⟩ opened := rfl

theorem readServers_opened :
    (resolver response).readServers question opened = (servers.take 1, servers.drop 1,
      ((resolver response).readServers question opened).2.2) := by
  have hbest : (opened.bestNameservers 0 question).1 = servers.take 1 := by decide +kernel
  have hread : ((opened.bestNameservers 0 question).2.knownAddresses 0 (servers.take 1) false).1 =
      (RecordSet.empty.insertAll (Cache.byAddress (servers.drop 1))).toList := rfl
  have hsorted : Cache.byAddress (servers.drop 1) = servers.drop 1 :=
    List.mergeSort_of_pairwise (by decide)
  refine Prod.ext hbest (Prod.ext ?_ rfl)
  show ((opened.bestNameservers 0 question).2.knownAddresses 0
    (opened.bestNameservers 0 question).1 false).1 = servers.drop 1
  rw [hbest, hread, hsorted]
  decide +kernel

theorem client_neverRepeats (m : Message) (hm : (m.allRecords.map Record.identity).Nodup) :
    (client m).NeverRepeats := by
  rintro _ _ _ _ ⟨⟩
  exact hm

theorem client_reorders {m m' : Message} (h : m.Reorders m') :
    (client m).Reorders Eq (client m') :=
  fun _ _ _ _ hsame => ⟨.message h, congrArg (· + 20) hsame⟩

end Mixed

/-! ### Main result -/

/-- The responses to one lookup bring the records of the other's in another order, the caches list
theirs in another order at the start, and the clocks show the same. Then each point of the one has
its counterpart in the other, after as many steps, with the same questions put to the same servers,
the same records in the cache and the same result if it has ended; and so has each point of the
other however it is shuffled on the way. If one ends, the other ends as well; and however it is
shuffled, it has always the same number of steps to take, and the same end before it. -/
theorem recordOrder_irrelevant (hclock : ∀ x y, tied x y → R.client.now x = R'.client.now y)
    (hipv6 : R.useIpv6 = R'.useIpv6) (hbudget : R.budget = R'.budget)
    (hdistinct : R.client.NeverRepeats) (hclients : R.client.Reorders tied R'.client)
    (q : Question) {c d : Cache} (hc : c.WellFormed) (hcaches : c.Reorders d) {x : σ} {y : τ}
    (htied : tied x y) :
    let s : Session σ := { client := x, cache := c }
    let t : Session τ := { client := y, cache := d }
    (∀ n a, InSteps R.Step n (R.start q s) a →
        ∃ b, InSteps R'.Step n (R'.start q t) b ∧ a.Agrees .exact b) ∧
      (∀ n b, InSteps R'.ShuffledStep n (R'.start q t) b →
        ∃ a, InSteps R.Step n (R.start q s) a ∧ a.Agrees .exact b) ∧
      ∀ result u, R.Ends q s result u →
        (∃ result' v, R'.Ends q t result' v ∧ SameResult result result' ∧ SeenAlike .exact u v) ∧
        ∃ length, ∀ n b, InSteps R'.ShuffledStep n (R'.start q t) b →
          ∃ left result' v, n + left = length ∧ InSteps R'.Step left b (.closed result' [] v) ∧
            SameResult result result' ∧ SeenAlike .exact u v := by
  intro s t
  have hR : R.Resembles .exact tied R' := by
    refine ⟨hclock, hipv6, hbudget, ?_⟩
    rintro p q address x y rfl hxy
    obtain ⟨houtcome, hnext⟩ := hclients p address x y hxy
    exact ⟨houtcome.sameOutcome (hdistinct p address x), hnext⟩
  have hsame : c.Resembles .exact c :=
    ⟨hc, hc, fun r hr => ⟨r, hr, rfl⟩, fun r hr => ⟨r, hr, rfl⟩⟩
  have hstart : (R.start q s).Resembles .exact tied (R'.start q t) :=
    start_resembles hR rfl ⟨htied, hsame.reorders hcaches, fun _ => rfl, rfl⟩
  refine ⟨?_, ?_, ?_⟩
  · intro n a ha
    obtain ⟨b, hb, hab⟩ := inSteps_resembles hR hstart ha
    exact ⟨b, hb, hab.agrees⟩
  · intro n b hb
    obtain ⟨a, ha, hab⟩ := inSteps_resembles_back hR hstart hb
    exact ⟨a, ha, hab.agrees⟩
  · intro result u hends
    have hrun := exists_lookup_iff_run.1 hends
    refine ⟨?_, ?_⟩
    · obtain ⟨result', v, hrun', hresult⟩ := Run.exists_closed hR hstart hrun
      exact ⟨result', v, exists_lookup_iff_run.2 hrun', hresult⟩
    · obtain ⟨length, hlength⟩ := exists_inSteps_iff.2 hrun
      refine ⟨length, ?_⟩
      intro n b hb
      obtain ⟨a, ha, hab⟩ := inSteps_resembles_back hR hstart hb
      obtain ⟨left, hleft, hrest⟩ := closed_of_inSteps hlength ha
      obtain ⟨b', hrest', hb'⟩ := inSteps_resembles hR hab hrest
      obtain ⟨result', v, rfl, hresult⟩ := hb'.agrees.exists_closed
      exact ⟨left, result', v, hleft, hrest', hresult⟩

/-- The response comes in disorder and the addresses were kept in reverse, and the same server is
asked for the same answer. -/
theorem Mixed.same_server :
    let q : Question := ⟨"q.z", .a, .«in»⟩
    let s : Session Instant := { client := 0, cache := ({} : Cache).addAll servers }
    let t : Session Instant := { client := 0, cache := ({} : Cache).addAll servers.reverse }
    ∃ found u, (resolver response).Ends q s (.ok found) u ∧ found.toList = [sought] ∧
      u.calls .exact = [(q, some (.ofQuad 10 0 0 1))] ∧
      ∃ result' v, (resolver disordered).Ends q t result' v ∧ SameResult (.ok found) result' ∧
        SeenAlike .exact u v := by
  intro q s t
  have hfound : ((resolver response).lookup question start).map
      (fun r => r.1.toOption.map RecordSet.toList) = some (some [sought]) := by
    rw [lookup_eq, rounds, selectServers_of_read readServers_opened]
    decide +kernel
  have hcalled : ((resolver response).lookup question start).map (fun r => r.2.calls .exact) =
      some [(View.exact.question question, some (.ofQuad 10 0 0 1))] := by
    rw [lookup_eq, rounds, selectServers_of_read readServers_opened]
    decide +kernel
  obtain ⟨found, u, hends, hlist, hcalls⟩ := exists_ends_of_shown hfound hcalled
  have hnever : (resolver response).client.NeverRepeats := client_neverRepeats response (by decide)
  have hclients : (resolver response).client.Reorders Eq (resolver disordered).client :=
    client_reorders ⟨rfl, rfl, rfl, by decide⟩
  have hcaches : (({} : Cache).addAll servers).Reorders (({} : Cache).addAll servers.reverse) :=
    ⟨Cache.wellFormed_empty.addAll _, by decide⟩
  have hsame := @recordOrder_irrelevant Instant Instant Eq (resolver response)
    (resolver disordered) (fun _ _ => congrArg id) rfl rfl hnever hclients q _ _
    (Cache.wellFormed_empty.addAll _) hcaches 0 0 rfl
  exact ⟨found, u, hends, hlist, hcalls, (hsame.2.2 _ u hends).1⟩

end Resolver

end IterativeDns
