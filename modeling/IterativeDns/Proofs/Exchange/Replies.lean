import IterativeDns.Proofs.Exchange.Contacts
import IterativeDns.Proofs.Wire.Header

/-!
# Where replies come from

Whatever the network does, the reply an exchange ends with was read off a datagram from the
server that was asked or off the reply of its stream, and it carries the ID of the query that was
sent. A datagram must also be marked as a response. Nobody asks that of the reply of a stream:
`reply_genuine` says exactly when a reply is accepted without the mark, and
`unmarked_reply_accepted` is an exchange where one is.

`Asking` holds as long as an exchange waits for datagrams, and `Ending` says how it can end.
-/

namespace IterativeDns.Exchange

/-! ### Waiting -/

/-- A datagram is a reply if it is from the server, can be read, carries the ID of the query and
is marked as a response. -/
theorem judge_eq_reply {now : Instant} {query : Query} {source : Endpoint} {octets : List UInt8}
    {m : Message} :
    judge now query source octets = .reply m ↔
      source = query.server ∧ Wire.decode now octets = .ok m ∧ m.id = query.id ∧
        m.flags.response = true := by
  unfold judge
  cases hdecode : Wire.decode now octets with
  | error fault => split <;> simp
  | ok n =>
    -- the verdict is given on the header that was peeked at, which is the header of `n`
    have hpeek := Wire.peek_of_decode hdecode
    by_cases hreply : isReply query.server query.id source octets = true
    · rw [if_pos hreply]
      simp only [isReply, hpeek, Bool.and_eq_true, decide_eq_true_eq] at hreply
      obtain ⟨hsource, hid, hresponse⟩ := hreply
      constructor
      · intro h
        cases h
        exact ⟨hsource, rfl, hid, hresponse⟩
      · intro h
        obtain ⟨-, h, -, -⟩ := h
        cases h
        rfl
    · rw [if_neg hreply]
      refine ⟨nofun, ?_⟩
      intro h
      obtain ⟨rfl, h, hid, hresponse⟩ := h
      cases h
      exact absurd (by simp [isReply, hpeek, hid, hresponse]) hreply

variable {settings : ExchangeSettings} {time : Timeline} {now : Instant} {query : Query}

/-- Waiting only takes arrivals out of the inbox. -/
theorem await_suffix (deadline clock : Nat) (inbox : Inbox) :
    (await settings time query deadline clock inbox).2.2 <:+ inbox := by
  induction inbox generalizing clock with
  | nil => exact List.suffix_refl []
  | cons a inbox ih =>
    have htail : inbox <:+ a :: inbox := List.suffix_cons a inbox
    rw [await]
    split
    · exact List.suffix_refl _
    · simp only
      split
      · exact htail
      · split
        · exact (ih _).trans htail
        · exact htail
        · exact htail

/-- The reply that ends the waiting was in the inbox, and it is read when the waiting ends. -/
theorem exists_of_await {deadline clock heard : Nat} {inbox rest : Inbox} {m : Message}
    (h : await settings time query deadline clock inbox = (.reply m, heard, rest)) :
    ∃ source octets, .datagram source octets ∈ inbox.map Arrival.delivery ∧
      judge (time.instant heard) query source (readable settings octets) = .reply m := by
  induction inbox generalizing clock with
  | nil => cases h
  | cons a inbox ih =>
    rw [await] at h
    split at h
    · cases h
    · simp only at h
      split at h
      · cases h
      · next source octets ha =>
        split at h
        · obtain ⟨source, octets, hmem, hjudge⟩ := ih h
          exact ⟨source, octets, List.mem_cons_of_mem _ hmem, hjudge⟩
        · cases h
        · next n hjudge =>
          cases h
          exact ⟨source, octets, ha ▸ List.mem_cons_self, hjudge⟩

/-- The reply that ends the waiting of an attempt was in the inbox. -/
theorem exists_of_listen {σ : Type} {l heard : Link σ} {m : Message}
    (h : listen settings time query l = (.reply m, heard)) :
    heard.world = l.world ∧ ∃ source octets,
      .datagram source octets ∈ l.inbox.map Arrival.delivery ∧
        judge (time.instant heard.clock) query source (readable settings octets) = .reply m := by
  cases hwaited : await settings time query (l.clock + settings.timeout) l.clock l.inbox with
  | mk waited rest =>
  rw [listen, hwaited] at h
  cases h
  exact ⟨rfl, exists_of_await hwaited⟩

/-! ### The stream -/

/-- What comes of the reply of a stream. -/
def streamed (now : Instant) (query : Query) : Except String (List UInt8) → Except Failure Reply
  | .error reason => .error (.transport query.server.text reason)
  | .ok octets =>
    match Wire.decode now octets with
    | .error _ => .ok .silence
    | .ok m => if m.id = query.id then .ok (.message m) else .ok .silence

/-- The reply of a stream counts if it can be read and carries the ID of the query. -/
theorem streamed_eq_message {reply : Except String (List UInt8)} {m : Message} :
    streamed now query reply = .ok (.message m) ↔
      ∃ octets, reply = .ok octets ∧ Wire.decode now octets = .ok m ∧ m.id = query.id := by
  cases reply with
  | error reason => simp [streamed]
  | ok octets =>
    simp only [streamed, Except.ok.injEq, exists_eq_left']
    cases Wire.decode now octets with
    | error fault => simp
    | ok n =>
      simp only
      split
      · next hid =>
        simp only [Except.ok.injEq, Reply.message.injEq]
        exact ⟨fun h => ⟨h, h ▸ hid⟩, And.left⟩
      · next hid =>
        simp only [Except.ok.injEq, reduceCtorEq, false_iff, not_and]
        rintro rfl
        exact hid

/-! ### An exchange under way -/

variable {σ : Type} {net : Network σ}

/-- Everything that has reached the socket: what was in the inbox at the start, and what the
datagrams that were sent made arrive. -/
def received (start : Inbox) (log : List Contact) : List Delivery :=
  start.map Arrival.delivery ++ log.flatMap Contact.deliveries

/-- An exchange that has not used a stream. -/
structure Asking (query : Query) (start : Inbox) (l : Link (σ × List Contact)) : Prop where
  sent : ∀ c ∈ l.log, ∃ outcome, c = .sent query.server query.octets outcome
  inbox : ∀ a ∈ l.inbox, a.delivery ∈ received start l.log

theorem Asking.initial (world : σ) (clock : Nat) (start : Inbox) :
    Asking query start ⟨(world, []), clock, start⟩ :=
  ⟨nofun, fun _ ha => List.mem_append_left _ (List.mem_map_of_mem ha)⟩

/-- One more datagram is sent, and its deliveries are put into the inbox. -/
theorem Asking.send {start : Inbox} {l : Link (σ × List Contact)} {world : σ}
    {deliveries : List (Nat × Delivery)} (h : Asking query start l) :
    Asking query start
      ((l.note world (.sent query.server query.octets (.ok deliveries))).deliver deliveries) := by
  constructor
  · intro c hc
    rcases List.mem_append.1 hc with hc | hc
    · exact h.sent c hc
    · exact ⟨.ok deliveries, List.mem_singleton.1 hc⟩
  · intro a ha
    rw [received, Link.log_deliver, Link.log_note, List.flatMap_append, ← List.append_assoc]
    rcases Inbox.mem_insertAll.1 ha with ha | ha
    · exact List.mem_append_left _ (h.inbox a ha)
    · obtain ⟨d, hd, rfl⟩ := List.mem_map.1 ha
      refine List.mem_append_right _ ?_
      rw [List.flatMap_singleton]
      exact List.mem_map_of_mem hd

theorem Asking.listen {start : Inbox} {l : Link (σ × List Contact)} (h : Asking query start l) :
    Asking query start (listen settings time query l).2 :=
  ⟨h.sent, fun a ha => h.inbox a ((await_suffix _ _ _).subset ha)⟩

/-- The reply that ends the waiting is a datagram from the server. -/
theorem Asking.exists_of_listen {start : Inbox} {l heard : Link (σ × List Contact)} {m : Message}
    (h : Asking query start l)
    (hlisten : Exchange.listen settings time query l = (.reply m, heard)) :
    ∃ octets, .datagram query.server octets ∈ received start heard.log ∧
      judge (time.instant heard.clock) query query.server (readable settings octets) =
        .reply m := by
  obtain ⟨hworld, source, octets, hmem, hjudge⟩ := Exchange.exists_of_listen hlisten
  obtain ⟨a, ha, hdelivery⟩ := List.mem_map.1 hmem
  obtain ⟨rfl, -⟩ := judge_eq_reply.1 hjudge
  have hlog : heard.log = l.log := congrArg Prod.snd hworld
  exact ⟨octets, hlog ▸ hdelivery ▸ h.inbox a ha, hjudge⟩

/-! ### How an exchange ends -/

/-- What an exchange that ends at an instant can come to, with the contacts it made. -/
inductive Ending (settings : ExchangeSettings) (now : Instant) (query : Query) (start : Inbox) :
    Except Failure Reply → List Contact → Prop where
  /-- There is no reply, and no stream was used. -/
  | fruitless {outcome log} (hsent : ∀ c ∈ log, ∃ o, c = .sent query.server query.octets o)
      (hnone : ∀ m, outcome ≠ .ok (.message m)) : Ending settings now query start outcome log
  /-- A datagram is the reply. -/
  | datagram {octets m log} (hsent : ∀ c ∈ log, ∃ o, c = .sent query.server query.octets o)
      (hlog : log ≠ []) (hreceived : .datagram query.server octets ∈ received start log)
      (hjudge : judge now query query.server (readable settings octets) = .reply m) :
      Ending settings now query start (.ok (.message m)) log
  /-- A stream was used after the datagrams. -/
  | stream {log reply} (hsent : ∀ c ∈ log, ∃ o, c = .sent query.server query.octets o) :
      Ending settings now query start (streamed now query reply)
        (log ++ [.conversed query.server query.octets reply])

theorem Ending.silence {start : Inbox} {log : List Contact}
    (hsent : ∀ c ∈ log, ∃ o, c = .sent query.server query.octets o) :
    Ending settings now query start (.ok .silence) log :=
  .fruitless hsent (by simp)

theorem Ending.error {start : Inbox} {log : List Contact} {failure : Failure}
    (hsent : ∀ c ∈ log, ∃ o, c = .sent query.server query.octets o) :
    Ending settings now query start (.error failure) log :=
  .fruitless hsent (by simp)

/-- What has come of an exchange over a noting network is an ending for the instant it is then. -/
def EndsWith (settings : ExchangeSettings) (time : Timeline) (query : Query) (start : Inbox)
    (r : Exchanged × Link (σ × List Contact)) : Prop :=
  Ending settings (time.instant r.2.clock) query start r.1.outcome r.2.log

/-- What comes of a reply: either it counts or a stream is used. -/
theorem ending_conclude {start : Inbox} {l : Link (σ × List Contact)} {octets : List UInt8}
    {m : Message} (h : Asking query start l) (hlog : l.log ≠ [])
    (hreceived : .datagram query.server octets ∈ received start l.log)
    (hjudge : judge (time.instant l.clock) query query.server (readable settings octets) =
      .reply m) :
    EndsWith settings time query start (conclude net.noted settings time query m l) := by
  unfold conclude
  split
  · exact .stream h.sent
  · exact .datagram h.sent hlog hreceived hjudge

theorem ending_attempt {start : Inbox} (n : Nat) {l : Link (σ × List Contact)}
    (h : Asking query start l) :
    EndsWith settings time query start (attempt net.noted settings time query n l) := by
  induction n generalizing l with
  | zero => exact .silence h.sent
  | succ n ih =>
    cases hsend : net.send query.server query.octets l.world.1 with
    | mk outcome world =>
    have hnoted := Link.noted_send hsend
    cases outcome with
    | error reason =>
      rw [attempt_of_send_error net.noted settings time query hnoted]
      refine .error ?_
      intro c hc
      rcases List.mem_append.1 hc with hc | hc
      · exact h.sent c hc
      · exact ⟨.error reason, List.mem_singleton.1 hc⟩
    | ok deliveries =>
      have hsent : Asking query start
          ((l.note world (.sent query.server query.octets (.ok deliveries))).deliver deliveries) :=
        h.send
      cases hlisten : listen settings time query
        ((l.note world (.sent query.server query.octets (.ok deliveries))).deliver deliveries) with
      | mk waited heard =>
      have hheard : Asking query start heard := by
        have hafter : Asking query start (listen settings time query
            ((l.note world (.sent query.server query.octets (.ok deliveries))).deliver
              deliveries)).2 :=
          hsent.listen
        rwa [hlisten] at hafter
      rw [attempt_of_send net.noted settings time query hnoted hlisten]
      cases waited with
      | failed reason => exact .error hheard.sent
      | timedOut => exact ih hheard
      | garbled => exact ih hheard
      | reply m =>
        have hlog : heard.log ≠ [] := by
          have := congrArg (fun r => r.2.log) hlisten
          rw [← this]
          exact List.append_ne_nil_of_right_ne_nil _ (List.cons_ne_nil _ _)
        obtain ⟨octets, hreceived, hjudge⟩ := hsent.exists_of_listen hlisten
        exact ending_conclude hheard hlog hreceived hjudge

/-- Every contact of an exchange was made with the server, with one query. -/
theorem Ending.addressed {start : Inbox} {outcome : Except Failure Reply} {log : List Contact}
    (h : Ending settings now query start outcome log) :
    ∀ c ∈ log, c.server = query.server ∧ c.octets = query.octets := by
  have hsends : ∀ {log : List Contact},
      (∀ c ∈ log, ∃ o, c = .sent query.server query.octets o) →
        ∀ c ∈ log, c.server = query.server ∧ c.octets = query.octets := by
    intro log hsent c hc
    obtain ⟨o, rfl⟩ := hsent c hc
    exact ⟨rfl, rfl⟩
  cases h with
  | fruitless hsent _ => exact hsends hsent
  | datagram hsent _ _ _ => exact hsends hsent
  | stream hsent =>
    intro c hc
    rcases List.mem_append.1 hc with hc | hc
    · exact hsends hsent c hc
    · rw [List.mem_singleton.1 hc]
      exact ⟨rfl, rfl⟩

/-- A stream is used last. -/
theorem Ending.streamed_of_mem {start : Inbox} {outcome : Except Failure Reply}
    {log : List Contact} (h : Ending settings now query start outcome log) {server : Endpoint}
    {octets : List UInt8} {reply : Except String (List UInt8)}
    (hmem : .conversed server octets reply ∈ log) : outcome = streamed now query reply := by
  have hsends : ∀ {log : List Contact},
      (∀ c ∈ log, ∃ o, c = .sent query.server query.octets o) →
        .conversed server octets reply ∉ log := by
    intro log hsent hc
    obtain ⟨o, ho⟩ := hsent _ hc
    cases ho
  cases h with
  | fruitless hsent _ => exact absurd hmem (hsends hsent)
  | datagram hsent _ _ _ => exact absurd hmem (hsends hsent)
  | stream hsent =>
    rcases List.mem_append.1 hmem with hmem | hmem
    · exact absurd hmem (hsends hsent)
    · cases List.mem_singleton.1 hmem
      rfl

/-- Where a reply comes from. -/
theorem Ending.source {start : Inbox} {log : List Contact} {m : Message}
    (h : Ending settings now query start (.ok (.message m)) log) :
    log ≠ [] ∧ m.id = query.id ∧
      ((∃ octets, .datagram query.server octets ∈ received start log ∧
          Wire.decode now (readable settings octets) = .ok m ∧ m.flags.response = true) ∨
        ∃ reply, log.getLast? = some (.conversed query.server query.octets (.ok reply)) ∧
          Wire.decode now reply = .ok m) := by
  -- `cases` needs a variable where the outcome stands
  generalize houtcome : (Except.ok (Reply.message m) : Except Failure Reply) = outcome at h
  cases h with
  | fruitless _ hnone => exact absurd houtcome.symm (hnone m)
  | datagram _ hlog hreceived hjudge =>
    cases houtcome
    obtain ⟨-, hdecode, hid, hresponse⟩ := judge_eq_reply.1 hjudge
    exact ⟨hlog, hid, .inl ⟨_, hreceived, hdecode, hresponse⟩⟩
  | stream _ =>
    obtain ⟨octets, rfl, hdecode, hid⟩ := streamed_eq_message.1 houtcome.symm
    exact ⟨by simp, hid, .inr ⟨octets, List.getLast?_concat, hdecode⟩⟩

/-- Only a stream gives replies that are not marked as responses, and there the mark does not
matter. -/
theorem Ending.unmarked_iff {start : Inbox} {outcome : Except Failure Reply} {log : List Contact}
    (h : Ending settings now query start outcome log) {m : Message} :
    (outcome = .ok (.message m) ∧ m.flags.response = false) ↔
      ∃ reply, .conversed query.server query.octets (.ok reply) ∈ log ∧
        Wire.decode now reply = .ok m ∧ m.id = query.id ∧ m.flags.response = false := by
  constructor
  · rintro ⟨rfl, hresponse⟩
    obtain ⟨-, hid, ⟨octets, -, -, hmarked⟩ | ⟨reply, hlast, hdecode⟩⟩ := h.source
    · rw [hresponse] at hmarked
      cases hmarked
    · exact ⟨reply, List.mem_of_getLast? hlast, hdecode, hid, hresponse⟩
  · rintro ⟨reply, hmem, hdecode, hid, hresponse⟩
    rw [h.streamed_of_mem hmem]
    exact ⟨streamed_eq_message.2 ⟨reply, rfl, hdecode, hid⟩, hresponse⟩

/-- An exchange whose question can be written has an ending for the query it sends; one whose
question cannot is over at once. -/
theorem ending_run (net : Network σ) (settings : ExchangeSettings) (time : Timeline) (q : Question)
    (server : Address) (l : Link σ) :
    (∃ id octets, Wire.encodeQuery q id = .ok octets ∧
      Ending settings (time.instant (run net settings time q server l).2.clock)
        ⟨q, ⟨server, settings.port⟩, id, octets⟩ l.inbox
        (run net settings time q server l).1.outcome (contacts net settings time q server l)) ∨
    contacts net settings time q server l = [] ∧
      ∃ failure, (run net settings time q server l).1.outcome = .error failure := by
  have hrun : run net settings time q server l =
      ((run net.noted settings time q server (l.noting [])).1,
        (run net.noted settings time q server (l.noting [])).2.unnoted) :=
    run_noted net settings time q server (l.noting [])
  rw [hrun, contacts]
  cases hid : net.noted.chooseId (l.noting []).world with
  | mk id world =>
  have hlog : world.2 = [] := by
    cases hid
    rfl
  cases hencode : Wire.encodeQuery q id with
  | error fault =>
    rw [run_of_fault net.noted settings time hid hencode]
    exact .inr ⟨hlog, _, rfl⟩
  | ok octets =>
    rw [run_of_octets net.noted settings time hid hencode]
    refine .inl ⟨id, octets, hencode, ending_attempt _ ?_⟩
    obtain ⟨world, log⟩ := world
    cases hlog
    exact Asking.initial world l.clock l.inbox

/-! ### A server behind a stream -/

/-- A network with one server. Its datagrams are all marked as responses and as truncated, and
over a stream it gives `reply`. -/
def truncating (reply : List UInt8) : Network Unit where
  chooseId _ := (7, ())
  send server _ _ := (.ok [(5, .datagram server [0, 7, 0x82, 0, 0, 0, 0, 0, 0, 0, 0, 0])], ())
  converse _ _ _ := (⟨20, .ok reply⟩, ())

/-- One attempt of a second, with the stream for truncated replies. -/
def oneAttempt : ExchangeSettings :=
  ⟨53, 1000, 1, 512, true⟩

/-! ### Main results -/

/-- A reply is the decoding, at the instant at which the exchange ends, of a datagram from the
server that is marked as a response, or of what the server's stream gave last; every contact was
with the server and carried one query with the ID of the reply. A reply that is not marked as a
response is accepted exactly if a stream gave it and its ID is that of the query. -/
theorem reply_genuine (net : Network σ) (settings : ExchangeSettings) (time : Timeline)
    (q : Question) (server : Address) (l : Link σ) :
    let outcome := (run net settings time q server l).1.outcome
    let now := time.instant (run net settings time q server l).2.clock
    let log := contacts net settings time q server l
    let peer : Endpoint := ⟨server, settings.port⟩
    (∀ m, outcome = .ok (.message m) →
      (∃ query flags, log ≠ [] ∧ (∀ c ∈ log, c.server = peer ∧ c.octets = query) ∧
        Wire.peek query = some (m.id, flags)) ∧
      ((∃ octets, .datagram peer octets ∈ received l.inbox log ∧
          Wire.decode now (readable settings octets) = .ok m ∧ m.flags.response = true) ∨
        ∃ query reply, log.getLast? = some (.conversed peer query (.ok reply)) ∧
          Wire.decode now reply = .ok m)) ∧
    ∀ m, (outcome = .ok (.message m) ∧ m.flags.response = false) ↔
      ∃ query reply flags, .conversed peer query (.ok reply) ∈ log ∧
        Wire.decode now reply = .ok m ∧ Wire.peek query = some (m.id, flags) ∧
        m.flags.response = false := by
  intro outcome now log peer
  rcases ending_run net settings time q server l with
    ⟨id, octets, hencode, hending⟩ | ⟨hlog, failure, houtcome⟩
  · have hpeek := Wire.peek_of_encodeQuery hencode
    refine ⟨?_, ?_⟩
    · intro m hm
      have haddressed := hending.addressed
      rw [show (run net settings time q server l).1.outcome = .ok (.message m) from hm] at hending
      obtain ⟨hlog, hid, hsource⟩ := hending.source
      refine ⟨⟨octets, {}, hlog, haddressed, hid ▸ hpeek⟩, ?_⟩
      exact hsource.imp_right fun ⟨reply, h⟩ => ⟨octets, reply, h⟩
    · intro m
      rw [hending.unmarked_iff]
      constructor
      · intro h
        obtain ⟨reply, hmem, hdecode, hid, hresponse⟩ := h
        exact ⟨octets, reply, {}, hmem, hdecode, hid ▸ hpeek, hresponse⟩
      · intro h
        obtain ⟨query, reply, flags, hmem, hdecode, hquery, hresponse⟩ := h
        obtain ⟨-, rfl⟩ := hending.addressed _ hmem
        cases hpeek.symm.trans hquery
        exact ⟨reply, hmem, hdecode, rfl, hresponse⟩
  · have hnone : ∀ m, outcome ≠ .ok (.message m) := fun m hm => by
      rw [show outcome = .error failure from houtcome] at hm
      cases hm
    refine ⟨fun m hm => absurd hm (hnone m), fun m => ⟨fun h => absurd h.1 (hnone m), ?_⟩⟩
    intro h
    obtain ⟨query, reply, flags, hmem, -⟩ := h
    rw [show log = [] from hlog] at hmem
    cases hmem

/-- A stream's reply that is marked as a response is accepted, and it carries the ID of the
query. -/
theorem marked_reply_accepted :
    let l : Link Unit := { world := () }
    let net := truncating [0, 7, 0x80, 0, 0, 0, 0, 0, 0, 0, 0, 0]
    let m : Message := ⟨7, { response := true }, none, [], [], []⟩
    (run net oneAttempt (.since 0) (.ofText "example.com" .ns) (.ofQuad 192 0 2 53) l).1.outcome =
        .ok (.message m) ∧
      ∃ query flags, Wire.peek query = some (m.id, flags) ∧
        ∀ c ∈ contacts net oneAttempt (.since 0) (.ofText "example.com" .ns) (.ofQuad 192 0 2 53) l,
          c.server = ⟨.ofQuad 192 0 2 53, 53⟩ ∧ c.octets = query := by
  intro l net m
  have houtcome :
      (run net oneAttempt (.since 0) (.ofText "example.com" .ns) (.ofQuad 192 0 2 53) l).1.outcome =
        .ok (.message m) := rfl
  have hgenuine :=
    reply_genuine net oneAttempt (.since 0) (.ofText "example.com" .ns) (.ofQuad 192 0 2 53) l
  obtain ⟨query, flags, -, haddressed, hid⟩ := (hgenuine.1 m houtcome).1
  exact ⟨houtcome, query, flags, hid, haddressed⟩

/-- A stream's reply that is not marked as a response is accepted as well. -/
theorem unmarked_reply_accepted :
    let net := truncating [0, 7, 0, 0, 0, 0, 0, 0, 0, 0, 0, 0]
    ∃ m, (run net oneAttempt (.since 0) (.ofText "example.com" .ns) (.ofQuad 192 0 2 53)
        { world := () }).1.outcome = .ok (.message m) ∧ m.flags.response = false :=
  ⟨⟨7, {}, none, [], [], []⟩, rfl, rfl⟩

end IterativeDns.Exchange
