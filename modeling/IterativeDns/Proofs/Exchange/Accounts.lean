import IterativeDns.Proofs.Exchange.Replies

/-!
# Accounts of exchanges

An exchange is told by a client and by the resolver that asked for it: the client tells what it
sends, and of a truncated reply for which it turns to a stream; the resolver tells of the
response it gets. `Account` is all there is to tell of one exchange, with the rules for it, and
`Account.events` is how it is told.

Whatever a network does, the client tells its part of an account, unless the question cannot be
written and nothing is told at all (`exists_account_of_run`, `run_of_not_isWritable`).
-/

namespace IterativeDns

/-! ### Questions that can be sent -/

/-- The question can be written, so that a query for it can be sent. -/
def Question.IsWritable (q : Question) : Prop :=
  ∃ octets, Wire.encodeQuestion q = .ok octets

instance (q : Question) : Decidable q.IsWritable :=
  match h : Wire.encodeQuestion q with
  | .ok octets => .isTrue ⟨octets, h⟩
  | .error _ => .isFalse fun ⟨_, hok⟩ => by rw [h] at hok; cases hok

/-- Whether a query can be written does not depend on its ID. -/
theorem Question.isWritable_iff {q : Question} (id : UInt16) :
    q.IsWritable ↔ ∃ octets, Wire.encodeQuery q id = .ok octets := by
  unfold IsWritable
  constructor
  · rintro ⟨octets, h⟩
    simp [Wire.encodeQuery, Wire.encode, Message.query, Message.allRecords, Wire.encodeCount,
      Wire.encodeQuestion?, Wire.encodeRecords, h, bind, pure, Except.bind, Except.pure]
  · rintro ⟨octets, h⟩
    cases hq : Wire.encodeQuestion q with
    | ok octets => exact ⟨octets, rfl⟩
    | error fault =>
      simp [Wire.encodeQuery, Wire.encode, Message.query, Wire.encodeCount,
        Wire.encodeQuestion?, hq, bind, pure, Except.bind, Except.pure] at h

namespace Exchange

/-! ### What is told of an exchange -/

/-- The announcement of a section and, right after it, an event for each of its records. -/
def sectionTold (part : Section) (rs : List Record) : List TraceEvent :=
  .sectionStarted part rs.length :: rs.map (.recordDecoded part)

/-- The header of a response and, unless its verdict is an error, its three sections. -/
def responseTold (id : UInt16) (m : Message) : List TraceEvent :=
  .responseReceived id m.flags.authoritative m.flags.truncated m.responseCode ::
    if m.responseCode = .noError then
      sectionTold .answer m.answers ++ sectionTold .authority m.authorities ++
        sectionTold .additional m.additionals
    else []

/-- The datagrams of a query. -/
def datagramsTold (question : Question) (server : Endpoint) (id : UInt16) (sendings : Nat) :
    List TraceEvent :=
  List.replicate sendings (.querySent .udp question server id)

/-- The header of a truncated reply and the query over a stream that it led to. -/
def detourTold (question : Question) (server : Endpoint) (id : UInt16) :
    Option (Bool × ResponseCode) → List TraceEvent
  | none => []
  | some (authoritative, rcode) =>
    [.responseReceived id authoritative true rcode, .querySent .tcp question server id]

/-- What there is to tell of one exchange. -/
structure Account (settings : ExchangeSettings) where
  question : Question
  server : Endpoint
  /-- The one ID of the exchange. -/
  id : UInt16
  /-- How many datagrams were sent. -/
  sendings : Nat
  /-- The truncated reply for which a stream was used: whether it was authoritative, and its
  verdict. -/
  detour : Option (Bool × ResponseCode)
  outcome : Except Failure Reply
  one_le_sendings : 1 ≤ sendings
  sendings_le : sendings ≤ settings.attempts
  useTcp_of_detour : detour.isSome → settings.useTcp = true
  id_of_outcome : ∀ m, outcome = .ok (.message m) → m.id = id

namespace Account

variable {settings : ExchangeSettings} (A : Account settings)

/-- What the client tells. -/
def clientEvents : List TraceEvent :=
  datagramsTold A.question A.server A.id A.sendings ++
    detourTold A.question A.server A.id A.detour

/-- What the resolver tells of the response, if there is one. -/
def responseEvents : List TraceEvent :=
  match A.outcome with
  | .ok (.message m) => responseTold A.id m
  | _ => []

def events : List TraceEvent :=
  A.clientEvents ++ A.responseEvents

end Account

/-! ### What a client tells -/

/-- What a client reports of a query after so many datagrams. -/
inductive Reported (settings : ExchangeSettings) (query : Query) :
    (sendings : Nat) → Option (Bool × ResponseCode) → Exchanged → Prop where
  | ended {outcome : Except Failure Reply}
      (hid : ∀ m, outcome = .ok (.message m) → m.id = query.id) :
      Reported settings query 0 none ⟨outcome, []⟩
  | stream {outcome : Except Failure Reply} {authoritative : Bool} {rcode : ResponseCode}
      (htcp : settings.useTcp = true)
      (hid : ∀ m, outcome = .ok (.message m) → m.id = query.id) :
      Reported settings query 0 (some (authoritative, rcode))
        ⟨outcome, detourTold query.question query.server query.id (some (authoritative, rcode))⟩
  | sent {sendings : Nat} {detour : Option (Bool × ResponseCode)} {rest : Exchanged}
      (hrest : Reported settings query sendings detour rest) :
      Reported settings query (sendings + 1) detour
        ⟨rest.outcome, .querySent .udp query.question query.server query.id :: rest.trace⟩

section Reported

variable {settings : ExchangeSettings} {query : Query} {sendings : Nat}
  {detour : Option (Bool × ResponseCode)} {exchanged : Exchanged}

theorem Reported.trace_eq (h : Reported settings query sendings detour exchanged) :
    exchanged.trace = datagramsTold query.question query.server query.id sendings ++
      detourTold query.question query.server query.id detour := by
  induction h with
  | ended _ => rfl
  | stream _ _ => rfl
  | sent _ ih => exact congrArg (_ :: ·) ih

theorem Reported.useTcp (h : Reported settings query sendings detour exchanged)
    (hdetour : detour.isSome) : settings.useTcp = true := by
  induction h with
  | ended _ => cases hdetour
  | stream htcp _ => exact htcp
  | sent _ ih => exact ih hdetour

theorem Reported.id_eq (h : Reported settings query sendings detour exchanged) {m : Message}
    (hm : exchanged.outcome = .ok (.message m)) : m.id = query.id := by
  induction h with
  | ended hid => exact hid m hm
  | stream _ hid => exact hid m hm
  | sent _ ih => exact ih hm

/-- A report of a client that has sent something is the client's part of an account. -/
theorem Reported.exists_account (h : Reported settings query sendings detour exchanged)
    (hpos : 1 ≤ sendings) (hle : sendings ≤ settings.attempts) :
    ∃ A : Account settings, A.question = query.question ∧ A.server = query.server ∧
      exchanged = ⟨A.outcome, A.clientEvents⟩ := by
  refine ⟨⟨query.question, query.server, query.id, sendings, detour, exchanged.outcome, hpos, hle,
    h.useTcp, fun _ => h.id_eq⟩, rfl, rfl, ?_⟩
  rw [Account.clientEvents, ← h.trace_eq]

end Reported

section Client

variable {σ : Type} {net : Network σ} {settings : ExchangeSettings} {time : Timeline}
  {query : Query}

theorem overStream_eq (l : Link σ) :
    (overStream net time query l).1 =
      ⟨streamed (time.instant (overStream net time query l).2.clock) query
          (net.converse query.server query.octets l.world).1.reply,
        [.querySent .tcp query.question query.server query.id]⟩ := rfl

/-- A reply with the ID of the query is either the outcome or the reason to use a stream. -/
theorem exists_reported_conclude (settings : ExchangeSettings) {m : Message} (hm : m.id = query.id)
    (l : Link σ) :
    ∃ detour, Reported settings query 0 detour (conclude net settings time query m l).1 := by
  unfold conclude
  split
  · next h =>
    rw [Bool.and_eq_true] at h
    refine ⟨some (m.flags.authoritative, m.responseCode), ?_⟩
    simp only [overStream_eq, Message.headerEvent, h.1, hm]
    refine .stream h.2 ?_
    intro n hn
    obtain ⟨_, -, -, hid⟩ := streamed_eq_message.1 hn
    exact hid
  · refine ⟨none, .ended ?_⟩
    rintro n ⟨⟩
    exact hm

/-- The reply that ends the waiting has the ID of the query. -/
theorem id_of_listen {l heard : Link σ} {m : Message}
    (h : listen settings time query l = (.reply m, heard)) : m.id = query.id := by
  obtain ⟨-, _, _, -, hjudge⟩ := exists_of_listen h
  exact (judge_eq_reply.1 hjudge).2.2.1

/-- If a query is sent at all, the first datagram goes out, and fewer than `n` may follow. -/
theorem exists_reported_attempt (net : Network σ) (settings : ExchangeSettings) (time : Timeline)
    (query : Query) (n : Nat) (l : Link σ) :
    ∃ sendings detour, sendings ≤ n ∧ (1 ≤ n → 1 ≤ sendings) ∧
      Reported settings query sendings detour (attempt net settings time query n l).1 := by
  induction n generalizing l with
  | zero => exact ⟨0, none, Nat.le_refl 0, id, .ended (by simp)⟩
  | succ n ih =>
    suffices h : ∃ rest sendings detour, sendings ≤ n ∧
        Reported settings query sendings detour rest ∧
        (attempt net settings time query (n + 1) l).1 =
          ⟨rest.outcome, .querySent .udp query.question query.server query.id :: rest.trace⟩ by
      obtain ⟨rest, sendings, detour, hle, hrest, heq⟩ := h
      exact ⟨sendings + 1, detour, Nat.succ_le_succ hle, fun _ => Nat.le_add_left 1 sendings,
        heq ▸ hrest.sent⟩
    cases hsend : net.send query.server query.octets l.world with
    | mk outcome world =>
    cases outcome with
    | error reason =>
      refine ⟨⟨.error (.transport query.server.text reason), []⟩, 0, none, Nat.zero_le n,
        .ended (by simp), ?_⟩
      exact congrArg Prod.fst (attempt_of_send_error net settings time query hsend)
    | ok deliveries =>
      cases hlisten : listen settings time query ({ l with world }.deliver deliveries) with
      | mk waited heard =>
      have heq := congrArg Prod.fst (attempt_of_send net settings time query (n := n) hsend hlisten)
      refine ⟨(goOn net settings time query n waited heard).1, ?_⟩
      cases waited with
      | failed reason => exact ⟨0, none, Nat.zero_le n, .ended (by simp), heq⟩
      | reply m =>
        obtain ⟨detour, hconclude⟩ := exists_reported_conclude settings (id_of_listen hlisten) heard
        exact ⟨0, detour, Nat.zero_le n, hconclude, heq⟩
      | timedOut | garbled =>
        obtain ⟨sendings, detour, hle, -, hattempt⟩ := ih heard
        exact ⟨sendings, detour, hle, hattempt, heq⟩

end Client

/-! ### Main results -/

variable {σ : Type} {settings : ExchangeSettings}

/-- Nothing is told of a question that cannot be written. -/
theorem run_of_not_isWritable (net : Network σ) (time : Timeline) {q : Question}
    (hq : ¬q.IsWritable) (server : Address) (l : Link σ) :
    ∃ failure, (run net settings time q server l).1 = ⟨.error failure, []⟩ := by
  cases hid : net.chooseId l.world with
  | mk id world =>
  cases hencode : Wire.encodeQuery q id with
  | ok octets => exact absurd ((Question.isWritable_iff id).2 ⟨octets, hencode⟩) hq
  | error fault =>
    exact ⟨fault.toFailure, congrArg Prod.fst (run_of_fault net settings time hid hencode)⟩

/-- The client tells its part of an account of the exchange. -/
theorem exists_account_of_run (hattempts : 1 ≤ settings.attempts) (net : Network σ)
    (time : Timeline) {q : Question} (hq : q.IsWritable) (server : Address) (l : Link σ) :
    ∃ A : Account settings, A.question = q ∧ A.server = ⟨server, settings.port⟩ ∧
      (run net settings time q server l).1 = ⟨A.outcome, A.clientEvents⟩ := by
  cases hid : net.chooseId l.world with
  | mk id world =>
  obtain ⟨octets, hencode⟩ := (Question.isWritable_iff id).1 hq
  rw [run_of_octets net settings time hid hencode]
  obtain ⟨sendings, detour, hle, hpos, hreported⟩ :=
    exists_reported_attempt net settings time ⟨q, ⟨server, settings.port⟩, id, octets⟩
      settings.attempts { l with world }
  exact hreported.exists_account (hpos hattempts) hle

end Exchange

end IterativeDns
