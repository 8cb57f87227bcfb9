import IterativeDns.Client
import IterativeDns.Network
import IterativeDns.Wire.Decoding
import IterativeDns.Wire.Encoding

/-!
# Exchanges

An exchange asks one server one question over a datagram socket that all exchanges share. The
query is sent, and sent again with the same octets when a waiting time runs out or a reply makes
no sense, up to a number of attempts.

While it waits, `judge` decides about every datagram that comes in. One that is not from the
server, does not carry the query's ID or is no response has nothing to do with the exchange: it
is dropped and waiting goes on, up to the same deadline. The first reply that can be read ends
the waiting, whichever attempt it answers. If it is marked as truncated, the query is asked once
more over a stream, and then only the stream's reply counts.

The clock of a link counts milliseconds, and a `Timeline` says which instants these are: what a
message carries is dated when the message is read.
-/

namespace IterativeDns

/-- How exchanges are made. -/
structure ExchangeSettings where
  port : UInt16
  /-- How many milliseconds an attempt waits. -/
  timeout : Nat
  /-- How often a query is sent at most. -/
  attempts : Nat
  /-- How many octets of a datagram are read; never fewer than a header has. -/
  bufferSize : Nat
  /-- Truncated replies are asked for again over a stream. -/
  useTcp : Bool

/-- Which instant it is when the clock of a link shows a number of milliseconds. -/
structure Timeline where
  instant : Nat → Instant
  instant_le : ∀ {m n}, m ≤ n → instant m ≤ instant n

/-- The timeline of a connection that was made at an instant. -/
def Timeline.since (start : Instant) : Timeline where
  instant clock := start + clock
  instant_le h := Int.add_le_add_left (Int.ofNat_le.2 h) start

namespace Exchange

/-- A query in the form in which it is sent. -/
structure Query where
  question : Question
  server : Endpoint
  id : UInt16
  octets : List UInt8

/-! ### Waiting for a reply -/

/-- What a datagram means to an exchange. -/
inductive Verdict where
  /-- It has nothing to do with the exchange. -/
  | stray
  | garbled
  | reply (m : Message)

/-- The datagram is from the server, carries the ID of a query and is marked as a response. -/
def isReply (server : Endpoint) (id : UInt16) (source : Endpoint) (octets : List UInt8) : Bool :=
  source = server &&
    match Wire.peek octets with
    | some (replyId, flags) => replyId = id && flags.response
    | none => false

/-- Decides about a datagram. -/
def judge (now : Instant) (query : Query) (source : Endpoint) (octets : List UInt8) : Verdict :=
  if isReply query.server query.id source octets then
    match Wire.decode now octets with
    | .ok m => .reply m
    | .error _ => .garbled
  else .stray

/-- How waiting for a reply ended. -/
inductive Waited where
  | reply (m : Message)
  | garbled
  | timedOut
  | failed (reason : String)

/-- The part of a datagram that is read. -/
def readable (settings : ExchangeSettings) (octets : List UInt8) : List UInt8 :=
  octets.take (max settings.bufferSize Wire.headerSize)

/-- Reads an inbox until a reply comes or the deadline passes; returns how it ended, the time it
was then, and the inbox that is left. -/
def await (settings : ExchangeSettings) (time : Timeline) (query : Query) (deadline : Nat) :
    (clock : Nat) → Inbox → Waited × Nat × Inbox
  | clock, [] => (.timedOut, max clock deadline, [])
  | clock, a :: inbox =>
    if deadline < a.time then (.timedOut, max clock deadline, a :: inbox)
    else
      let clock := max clock a.time
      match a.delivery with
      | .failure reason => (.failed reason, clock, inbox)
      | .datagram source octets =>
        match judge (time.instant clock) query source (readable settings octets) with
        -- the deadline stays where it was
        | .stray => await settings time query deadline clock inbox
        | .garbled => (.garbled, clock, inbox)
        | .reply m => (.reply m, clock, inbox)

variable {σ : Type}

/-! ### The stream -/

/-- Asks the query over a stream. A reply that cannot be read or carries another ID is as good as
none. -/
def overStream (net : Network σ) (time : Timeline) (query : Query) (link : Link σ) :
    Exchanged × Link σ :=
  let (conversation, world) := net.converse query.server query.octets link.world
  let clock := link.clock + conversation.elapsed
  let outcome : Except Failure Reply :=
    match conversation.reply with
    | .error reason => .error (.transport query.server.text reason)
    | .ok octets =>
      match Wire.decode (time.instant clock) octets with
      | .error _ => .ok .silence
      | .ok m => if m.id = query.id then .ok (.message m) else .ok .silence
  (⟨outcome, [.querySent .tcp query.question query.server query.id]⟩, { link with world, clock })

/-! ### Attempts -/

/-- What comes of a readable reply. -/
def conclude (net : Network σ) (settings : ExchangeSettings) (time : Timeline) (query : Query)
    (m : Message) (link : Link σ) : Exchanged × Link σ :=
  if m.flags.truncated && settings.useTcp then
    let (exchanged, link) := overStream net time query link
    ({ exchanged with trace := m.headerEvent :: exchanged.trace }, link)
  else (⟨.ok (.message m), []⟩, link)

/-- Sends the query up to a number of times. -/
def attempt (net : Network σ) (settings : ExchangeSettings) (time : Timeline) (query : Query) :
    (attempts : Nat) → Link σ → Exchanged × Link σ
  | 0, link => (⟨.ok .silence, []⟩, link)
  | attempts + 1, link =>
    let sent := TraceEvent.querySent .udp query.question query.server query.id
    match net.send query.server query.octets link.world with
    -- failing sockets end the exchange, whatever attempts are left
    | (.error reason, world) =>
      (⟨.error (.transport query.server.text reason), [sent]⟩, { link with world })
    | (.ok deliveries, world) =>
      let link := { link with world }.deliver deliveries
      let (waited, clock, inbox) :=
        await settings time query (link.clock + settings.timeout) link.clock link.inbox
      let link := { link with clock, inbox }
      let (exchanged, link) : Exchanged × Link σ :=
        match waited with
        | .failed reason => (⟨.error (.transport query.server.text reason), []⟩, link)
        | .timedOut | .garbled => attempt net settings time query attempts link
        | .reply m => conclude net settings time query m link
      ({ exchanged with trace := sent :: exchanged.trace }, link)

/-- One exchange. A question whose name cannot be written is not sent at all. -/
def run (net : Network σ) (settings : ExchangeSettings) (time : Timeline) (q : Question)
    (server : Address) (link : Link σ) : Exchanged × Link σ :=
  let (id, world) := net.chooseId link.world
  let link := { link with world }
  match Wire.encodeQuery q id with
  | .error fault => (⟨.error fault.toFailure, []⟩, link)
  | .ok octets =>
    attempt net settings time ⟨q, ⟨server, settings.port⟩, id, octets⟩ settings.attempts link

/-! ### The clock -/

section Clock

variable {net : Network σ} {settings : ExchangeSettings} {time : Timeline} {query : Query}

theorem clock_le_await (deadline clock : Nat) (inbox : Inbox) :
    clock ≤ (await settings time query deadline clock inbox).2.1 := by
  induction inbox generalizing clock with
  | nil => exact Nat.le_max_left clock deadline
  | cons a inbox ih =>
    have hread : clock ≤ max clock a.time := Nat.le_max_left clock a.time
    rw [await]
    split
    · exact Nat.le_max_left clock deadline
    · simp only
      split
      · exact hread
      · split
        · exact Nat.le_trans hread (ih _)
        · exact hread
        · exact hread

theorem clock_le_conclude (m : Message) (link : Link σ) :
    link.clock ≤ (conclude net settings time query m link).2.clock := by
  unfold conclude
  split
  · exact Nat.le_add_right _ _
  · exact Nat.le_refl _

theorem clock_le_attempt (attempts : Nat) (link : Link σ) :
    link.clock ≤ (attempt net settings time query attempts link).2.clock := by
  induction attempts generalizing link with
  | zero => exact Nat.le_refl _
  | succ attempts ih =>
    rw [attempt]
    split
    · exact Nat.le_refl _
    · next deliveries world _ =>
      have hwaited : link.clock ≤ (await settings time query (link.clock + settings.timeout)
          link.clock ({ link with world }.deliver deliveries).inbox).2.1 :=
        clock_le_await _ _ _
      refine Nat.le_trans hwaited ?_
      simp only
      split
      · exact Nat.le_refl _
      · exact ih ⟨_, _, _⟩
      · exact ih ⟨_, _, _⟩
      · exact clock_le_conclude _ ⟨_, _, _⟩

/-- An exchange never turns the clock back. -/
theorem clock_le_run (q : Question) (server : Address) (link : Link σ) :
    link.clock ≤ (run net settings time q server link).2.clock := by
  cases hid : net.chooseId link.world with
  | mk id world =>
  simp only [run, hid]
  split
  · exact Nat.le_refl _
  · exact clock_le_attempt settings.attempts { link with world }

end Clock

/-- The client that makes its exchanges over a network. -/
def client (net : Network σ) (settings : ExchangeSettings) (time : Timeline) :
    Client (Link σ) where
  ask := run net settings time
  now link := time.instant link.clock
  now_le_now_ask q server link := time.instant_le (clock_le_run q server link)

end Exchange

end IterativeDns
