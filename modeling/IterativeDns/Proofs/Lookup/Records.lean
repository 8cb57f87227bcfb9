import IterativeDns.Proofs.Lookup.Servers

/-!
# The records of a lookup

A lookup makes up no records. Whatever it keeps, selects, collects or returns was in the cache at
its start or was told by a server, so a property that all of these have is one that every record at
any point of the lookup has (`Step.keeps`). The property is a parameter, `P`.

What a record is used for says more about it. Nameservers come out of the cache as nameserver
records, and the servers that are asked come out of it as address records; `Waiting.Keeps` and
`Position.AtHandKeeps` say so beside `P`.
-/

namespace IterativeDns

variable {σ : Type} {P : Record → Prop}

/-! ### Readings of a cache -/

namespace Cache

variable {c : Cache} {now : Instant} {r : Record}

theorem WellFormed.mem_of_mem_bestNameservers (hc : c.WellFormed) {q : Question}
    (h : r ∈ (c.bestNameservers now q).1) : r ∈ c.records ∧ r.recordType = .ns :=
  ⟨(hc.closest_of_mem_bestNameservers h).held, (hc.closest_of_mem_bestNameservers h).isNs⟩

theorem WellFormed.mem_of_mem_knownAddresses (hc : c.WellFormed) {nameservers : List Record}
    {useIpv6 : Bool} (h : r ∈ (c.knownAddresses now nameservers useIpv6).1) :
    r ∈ c.records ∧ r.recordType.isAddress = true := by
  obtain ⟨ns, -, q, hq, hlive⟩ := hc.mem_knownAddresses.1 h
  obtain ⟨target, -, t, ht, rfl⟩ := mem_addressQuestions_iff.1 hq
  obtain ⟨hheld, hkey, -⟩ := hc.mem_live.1 hlive
  have htype : r.recordType = t := congrArg (fun key => key.2.1) hkey
  refine ⟨hheld, ?_⟩
  rw [mem_addressTypes_iff] at ht
  rcases ht with rfl | ⟨rfl, -⟩ <;> rw [htype] <;> rfl

theorem WellFormed.mem_of_mem_answers (hc : c.WellFormed) {q : Question}
    (h : r ∈ (c.answers now q).1) : r ∈ c.records := by
  have hlive : ∀ {d : Cache} {p : Question}, d.entries = c.entries → r ∈ d.live now p →
      r ∈ c.records := by
    intro d p hd hr
    rw [live_congr hd] at hr
    exact (hc.mem_live.1 hr).1
  simp only [answers] at h
  split at h
  · exact hlive rfl h
  · rcases RecordSet.mem_of_mem_insertAll h with h | h
    · exact hlive rfl h
    · exact hlive (entries_get c now q) h

end Cache

theorem RecordSet.forall_union {s t : RecordSet} (hs : ∀ r ∈ s, P r) (ht : ∀ r ∈ t, P r) :
    ∀ r ∈ s.union t, P r :=
  fun r hr => (mem_of_mem_insertAll hr).elim (hs r) (ht r)

/-! ### Sessions -/

/-- The records a step of the history speaks of. -/
def LookupStep.records : LookupStep → List Record
  | selected _ before after servers => before.cache.records ++ after.cache.records ++ servers
  | asked _ server (.ok (.message m)) => server :: m.allRecords
  | asked _ server _ => [server]

/-- What a step tells it speaks of. -/
theorem LookupStep.told_subset (step : LookupStep) : step.told ⊆ step.records := by
  intro r hr
  cases step with
  | selected => cases hr
  | asked q server outcome =>
    match outcome with
    | .error _ => cases hr
    | .ok .silence => cases hr
    | .ok (.message m) =>
      simp only [told] at hr
      split at hr
      · cases hr
      · exact List.mem_cons_of_mem _ (List.mem_of_mem_filter hr)

/-- Every record of a response of the client has the property. -/
def Client.Tells (P : Record → Prop) (C : Client σ) : Prop :=
  ∀ q server x m, (C.ask q server x).1.outcome = .ok (.message m) → ∀ r ∈ m.allRecords, P r

namespace Session

/-- Every record of the cache and of the history has the property. -/
structure Keeps (P : Record → Prop) (s : Session σ) : Prop where
  wellFormed : s.cache.WellFormed
  cache : ∀ r ∈ s.cache.records, P r
  history : ∀ step ∈ s.history, ∀ r ∈ step.records, P r

theorem Keeps.follows {C : Client σ} {s t : Session σ} {steps : List LookupStep}
    (h : s.Keeps P) (hfollows : s.Follows C steps t)
    (hsteps : ∀ step ∈ steps, ∀ r ∈ step.records, P r) : t.Keeps P where
  wellFormed := hfollows.wellFormed h.wellFormed
  cache r hr := by
    rcases List.mem_append.1 (Resolver.mem_records_of_told h.wellFormed hfollows.cache hr) with
      hr | hr
    · exact h.cache r hr
    · obtain ⟨step, hstep, htold⟩ := List.mem_flatMap.1 hr
      exact hsteps step hstep r (step.told_subset htold)
  history := by
    rw [hfollows.history, List.forall_mem_append]
    exact ⟨h.history, hsteps⟩

theorem Keeps.read {C : Client σ} {s t : Session σ} (h : s.Keeps P)
    (hfollows : s.Follows C [] t) : t.Keeps P :=
  h.follows hfollows (List.forall_mem_nil _)

/-- A selection is noted. -/
theorem Keeps.select {s : Session σ} (h : s.Keeps P) (q : Question) {before : Snapshot}
    (hbefore : ∀ r ∈ before.cache.records, P r) (now : Instant) {servers : List Record}
    (hservers : ∀ r ∈ servers, P r) :
    (s.record (.selected q before ⟨now, s.cache⟩ servers)).Keeps P where
  wellFormed := h.wellFormed
  cache := h.cache
  history := by
    rw [record, List.forall_mem_append, List.forall_mem_singleton]
    simp only [LookupStep.records, List.forall_mem_append]
    exact ⟨h.history, ⟨hbefore, h.cache⟩, hservers⟩

end Session

/-! ### Frames -/

namespace Resolver

variable {R : Resolver σ}

/-- What a frame has has the property. -/
structure Frame.Keeps (P : Record → Prop) (f : Frame) : Prop where
  answers : ∀ r ∈ f.answers, P r
  tried : ∀ r ∈ f.tried, P r

theorem Frame.Keeps.mark {f : Frame} (h : f.Keeps P) {server : Record} (hserver : P server) :
    (f.mark server).Keeps P where
  answers := h.answers
  tried r hr := by
    rcases RecordSet.mem_insert.1 hr with hr | ⟨rfl, -⟩
    · exact h.tried r hr
    · exact hserver

theorem Frame.Keeps.gather {f : Frame} (h : f.Keeps P) (q : Question) {records : List Record}
    (hrecords : ∀ r ∈ records, P r) {cached : RecordSet} (hcached : ∀ r ∈ cached, P r) :
    ∀ r ∈ f.gather q records cached, P r := by
  refine RecordSet.forall_union ?_ hcached
  intro r hr
  rcases RecordSet.mem_of_mem_insertAll hr with hr | hr
  · exact h.answers r hr
  · exact hrecords r (List.mem_of_mem_filter hr)

/-- What a frame that waits for the address of a nameserver has. -/
structure Waiting.Keeps (P : Record → Prop) (w : Waiting) : Prop where
  frame : w.frame.Keeps P
  before : ∀ r ∈ w.before.cache.records, P r
  nameservers : ∀ ns ∈ w.nameservers, P ns ∧ ns.recordType = .ns
  rest : ∀ ns ∈ w.rest, P ns ∧ ns.recordType = .ns

theorem Waiting.Keeps.skip {w : Waiting} (h : w.Keeps P) {ns : Record} {rest : List Record}
    (hrest : w.rest = ns :: rest) : Keeps P { w with rest } :=
  { h with rest := fun r hr => h.rest r (hrest ▸ List.mem_cons_of_mem ns hr) }

/-- Where a frame stands while it asks servers. -/
structure Stage.Keeps (P : Record → Prop) (stage : Stage σ) : Prop where
  pending : ∀ r ∈ stage.pending, P r ∧ r.recordType.isAddress = true
  frame : stage.frame.Keeps P
  session : stage.session.Keeps P

/-! ### Asking -/

theorem keeps_answers {s : Session σ} (h : s.Keeps P) (q : Question) :
    (∀ r ∈ (s.answers (R.now s) q).1, P r) ∧ (s.answers (R.now s) q).2.Keeps P :=
  ⟨fun r hr => h.cache r (h.wellFormed.mem_of_mem_answers hr), h.read (answers_follows s q)⟩

theorem keeps_askServer (htells : R.client.Tells P) {s t : Session σ} (h : s.Keeps P)
    {q : Question} {server : Record} (hserver : P server) {address : Address}
    (haddress : server.address? = some address) {result : Except Failure (Option (List Record))}
    (hask : R.askServer q server address s = (result, t)) :
    t.Keeps P ∧ ∀ records, result = .ok (some records) → ∀ r ∈ records, P r := by
  have hstep : ∀ r ∈ (R.stepOf q server address s).records, P r := by
    have hmessage := htells q address s.client
    unfold stepOf
    match houtcome : (R.client.ask q address s.client).1.outcome with
    | .error _ => exact List.forall_mem_singleton.2 hserver
    | .ok .silence => exact List.forall_mem_singleton.2 hserver
    | .ok (.message m) => exact List.forall_mem_cons.2 ⟨hserver, hmessage m houtcome⟩
  refine ⟨h.follows (askServer_evolves haddress hask).1.follows
    (List.forall_mem_singleton.2 hstep), ?_⟩
  rintro records rfl
  rw [← told_stepOf hask]
  exact fun r hr => hstep r (LookupStep.told_subset _ hr)

/-- No servers are selected in the middle of a round. -/
theorem keeps_move (htells : R.client.Tells P) {q : Question} {a b : Stage σ}
    (hmove : R.Move (fun _ => none) q a b) (h : a.Keeps P) : b.Keeps P := by
  obtain ⟨hpending, hframe, hsession⟩ := h
  cases hmove with
  | select hselect _ => cases hselect
  | pass _ => exact ⟨(List.forall_mem_cons.1 hpending).2, hframe, hsession⟩
  | skip _ _ =>
    obtain ⟨hserver, hservers⟩ := List.forall_mem_cons.1 hpending
    exact ⟨hservers, hframe.mark hserver.1, hsession⟩
  | silent _ haddress hask =>
    obtain ⟨hserver, hservers⟩ := List.forall_mem_cons.1 hpending
    exact ⟨hservers, hframe.mark hserver.1,
      (keeps_askServer htells hsession hserver.1 haddress hask).1⟩
  | told _ haddress hask _ =>
    obtain ⟨hserver, hservers⟩ := List.forall_mem_cons.1 hpending
    obtain ⟨ht, hrecords⟩ := keeps_askServer htells hsession hserver.1 haddress hask
    obtain ⟨hcached, hread⟩ := keeps_answers (R := R) ht q
    exact ⟨hservers, ⟨hframe.gather q (hrecords _ rfl) hcached, (hframe.mark hserver.1).tried⟩,
      hread⟩

theorem keeps_finish (htells : R.client.Tells P) {q : Question} {a : Stage σ}
    {result : Except Failure RecordSet} {t : Session σ}
    (hfinish : R.Finish (fun _ => none) q a (result, t)) (h : a.Keeps P) :
    t.Keeps P ∧ ∀ found, result = .ok found → ∀ r ∈ found, P r := by
  obtain ⟨hpending, hframe, hsession⟩ := h
  cases hfinish with
  | exhausted hselect _ => cases hselect
  | failed _ haddress hask =>
    obtain ⟨hserver, -⟩ := List.forall_mem_cons.1 hpending
    exact ⟨(keeps_askServer htells hsession hserver.1 haddress hask).1, nofun⟩
  | settled _ haddress hask _ =>
    obtain ⟨hserver, -⟩ := List.forall_mem_cons.1 hpending
    obtain ⟨ht, hrecords⟩ := keeps_askServer htells hsession hserver.1 haddress hask
    obtain ⟨hcached, hread⟩ := keeps_answers (R := R) ht q
    refine ⟨hread, ?_⟩
    rintro found ⟨⟩
    exact hframe.gather q (hrecords _ rfl) hcached

theorem keeps_askServers (htells : R.client.Tells P) {q : Question} {stage : Stage σ}
    (h : stage.Keeps P) {ending : RoundEnd} {t : Session σ}
    (hask : R.askServers q stage.pending stage.frame stage.session = (ending, t)) :
    t.Keeps P ∧ (∀ f, ending = .goesOn f → f.Keeps P) ∧
      ∀ found, ending = .finished (.ok found) → ∀ r ∈ found, P r := by
  have hmoves : ∀ {last : Stage σ}, R.Moves (fun _ => none) q stage last → last.Keeps P := by
    intro last hmoves
    induction hmoves with
    | refl => exact h
    | tail _ hmove ih => exact keeps_move htells hmove ih
  have hends := R.askServers_roundEnds (fun _ => none) q stage.pending stage.frame stage.session
  rw [hask] at hends
  cases hends with
  | goesOn hpath =>
    refine ⟨(hmoves hpath).session, ?_, nofun⟩
    rintro f ⟨⟩
    exact (hmoves hpath).frame
  | finished hpath hfinish =>
    obtain ⟨ht, hfound⟩ := keeps_finish htells hfinish (hmoves hpath)
    refine ⟨ht, nofun, ?_⟩
    rintro found ⟨⟩
    exact hfound found rfl

/-! ### Positions -/

/-- What the innermost frame has at hand. -/
def Position.AtHandKeeps (P : Record → Prop) : Position σ → Prop
  | asking _ _ stage _ => stage.Keeps P
  | selected _ _ f servers _ s => Stage.Keeps P ⟨servers, f, s⟩
  | closed result _ _ => ∀ found, result = .ok found → ∀ r ∈ found, P r
  | opening _ _ _ _ | seeking _ _ _ => True

/-- Every record at a position has the property. -/
structure Position.Keeps (P : Record → Prop) (a : Position σ) : Prop where
  session : a.session.Keeps P
  waiting : ∀ w ∈ a.waiting, w.Keeps P
  atHand : a.AtHandKeeps P

theorem Position.keeps_start {s : Session σ} (h : s.Keeps P) (q : Question) :
    (R.start q s).Keeps P :=
  ⟨⟨h.wellFormed, h.cache, h.history⟩, List.forall_mem_nil _, trivial⟩

theorem keeps_selected {s : Session σ} (h : s.Keeps P) {f : Frame} (hf : f.Keeps P) (q : Question)
    (before : Snapshot) (hbefore : ∀ r ∈ before.cache.records, P r) {servers : List Record}
    (hservers : ∀ r ∈ servers, P r ∧ r.recordType.isAddress = true) :
    Stage.Keeps P ⟨servers, f, s.record (.selected q before (R.snapshot s) servers)⟩ :=
  ⟨hservers, hf, h.select q hbefore (R.now s) fun r hr => (hservers r hr).1⟩

theorem keeps_readServers {s : Session σ} (h : s.Keeps P) {q : Question} {t : Session σ}
    {nameservers servers : List Record} (hread : R.readServers q s = (nameservers, servers, t)) :
    t.Keeps P ∧ (∀ ns ∈ nameservers, P ns ∧ ns.recordType = .ns) ∧
      ∀ r ∈ servers, P r ∧ r.recordType.isAddress = true := by
  have ht : t.Keeps P := h.read (readServers_follows hread).1
  obtain ⟨rfl, rfl⟩ := readServers_eq hread
  refine ⟨ht, ?_, ?_⟩
  · intro ns hns
    exact (h.wellFormed.mem_of_mem_bestNameservers hns).imp_left (h.cache ns)
  · intro r hr
    exact (ht.wellFormed.mem_of_mem_knownAddresses hr).imp_left (ht.cache r)

theorem keeps_knownAddresses {s : Session σ} (h : s.Keeps P) {t : Session σ}
    {nameservers servers : List Record}
    (hread : s.knownAddresses (R.now s) nameservers R.useIpv6 = (servers, t)) :
    t.Keeps P ∧ ∀ r ∈ servers, P r ∧ r.recordType.isAddress = true := by
  have ht : t.Keeps P := h.read (knownAddresses_follows hread).1
  obtain rfl := knownAddresses_eq hread
  refine ⟨ht, ?_⟩
  intro r hr
  exact (ht.wellFormed.mem_of_mem_knownAddresses hr).imp_left (ht.cache r)

/-! ### Main result -/

/-- A step of a lookup makes up no records. -/
theorem Step.keeps (htells : R.client.Tells P) {a b : Position σ} (hstep : R.Step a b)
    (h : a.Keeps P) : b.Keeps P := by
  obtain ⟨hsession, hwaiting, hatHand⟩ := h
  cases hstep with
  | @known q budget outer s _ =>
    obtain ⟨hanswers, hread⟩ := keeps_answers (R := R) hsession q
    refine ⟨hread, hwaiting, ?_⟩
    rintro found ⟨⟩
    exact hanswers
  | @unknown q budget outer s _ =>
    obtain ⟨hanswers, hread⟩ := keeps_answers (R := R) hsession q
    exact ⟨hread, hwaiting, List.forall_mem_nil _, ⟨hanswers, nofun⟩, hread⟩
  | @select q _ _ _ _ _ _ _ hread _ =>
    obtain ⟨ht, -, hservers⟩ := keeps_readServers hsession hread
    have hselected := keeps_selected (R := R) ht hatHand.frame q (R.snapshot _) hsession.cache
      hservers
    exact ⟨hselected.session, hwaiting, hselected⟩
  | seek hread =>
    obtain ⟨ht, hnameservers, -⟩ := keeps_readServers hsession hread
    refine ⟨ht, List.forall_mem_cons.2 ⟨?_, hwaiting⟩, trivial⟩
    exact ⟨hatHand.frame, hsession.cache, hnameservers, hnameservers⟩
  | @giveUp w _ _ _ =>
    obtain ⟨hw, houter⟩ := List.forall_mem_cons.1 hwaiting
    have hselected := keeps_selected (R := R) hsession hw.frame w.question w.before hw.before
      (List.forall_mem_nil _)
    exact ⟨hselected.session, houter, hselected⟩
  | skip hrest _ =>
    obtain ⟨hw, houter⟩ := List.forall_mem_cons.1 hwaiting
    exact ⟨hsession, List.forall_mem_cons.2 ⟨hw.skip hrest, houter⟩, trivial⟩
  | pass hrest _ _ =>
    obtain ⟨hw, houter⟩ := List.forall_mem_cons.1 hwaiting
    exact ⟨hsession, List.forall_mem_cons.2 ⟨hw.skip hrest, houter⟩, trivial⟩
  | lookUp hrest _ _ =>
    obtain ⟨hw, houter⟩ := List.forall_mem_cons.1 hwaiting
    exact ⟨⟨hsession.wellFormed, hsession.cache, hsession.history⟩,
      List.forall_mem_cons.2 ⟨hw.skip hrest, houter⟩, trivial⟩
  | failed => exact ⟨hsession, hwaiting, trivial⟩
  | useless hread => exact ⟨(keeps_knownAddresses hsession hread).1, hwaiting, trivial⟩
  | @found _ w _ _ _ _ hread _ =>
    obtain ⟨hw, houter⟩ := List.forall_mem_cons.1 hwaiting
    obtain ⟨ht, hservers⟩ := keeps_knownAddresses hsession hread
    have hselected := keeps_selected (R := R) ht hw.frame w.question w.before hw.before hservers
    exact ⟨hselected.session, houter, hselected⟩
  | @exhausted q _ _ _ _ _ _ =>
    obtain ⟨hanswers, hread⟩ := keeps_answers (R := R) hsession q
    refine ⟨hread, hwaiting, ?_⟩
    rintro found ⟨⟩
    exact RecordSet.forall_union hatHand.frame.answers hanswers
  | round _ => exact ⟨hsession, hwaiting, hatHand⟩
  | @ask _ _ _ f _ s _ server _ hask =>
    obtain ⟨hserver, hservers⟩ := List.forall_mem_cons.1 hatHand.pending
    have hsingle : Stage.Keeps P ⟨[server], f, s⟩ :=
      ⟨List.forall_mem_singleton.2 hserver, hatHand.frame, hsession⟩
    obtain ⟨ht, hf, -⟩ := keeps_askServers htells hsingle hask
    exact ⟨ht, hwaiting, hservers, hf _ rfl, ht⟩
  | @finish _ _ _ f s _ server _ _ hask =>
    obtain ⟨hserver, -⟩ := List.forall_mem_cons.1 hatHand.pending
    have hsingle : Stage.Keeps P ⟨[server], f, s⟩ :=
      ⟨List.forall_mem_singleton.2 hserver, hatHand.frame, hsession⟩
    obtain ⟨ht, -, hfound⟩ := keeps_askServers htells hsingle hask
    exact ⟨ht, hwaiting, fun found hresult => hfound found (hresult ▸ rfl)⟩

end Resolver

end IterativeDns
