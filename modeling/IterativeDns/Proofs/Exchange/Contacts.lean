import IterativeDns.Exchange

/-!
# Contacts

An exchange is seen from the server by what it sends and from the client by what comes of it. To
speak of both, a network can be made to take notes: `Network.noted` is the same network with a
list of all contacts beside its state. The notes change nothing about an exchange (`run_noted`),
so the contacts of an exchange are read off a run over the noting network (`Exchange.contacts`).
-/

namespace IterativeDns

/-- A contact with a server and what came of it. -/
inductive Contact where
  /-- A datagram was sent; `outcome` is what it made arrive, with delays. -/
  | sent (server : Endpoint) (octets : List UInt8)
      (outcome : Except String (List (Nat × Delivery)))
  /-- A query was made over a stream; `outcome` is the reply. -/
  | conversed (server : Endpoint) (octets : List UInt8) (outcome : Except String (List UInt8))

namespace Contact

/-- Whom the contact was with. -/
def server : Contact → Endpoint
  | sent server _ _ | conversed server _ _ => server

/-- What was sent. -/
def octets : Contact → List UInt8
  | sent _ octets _ | conversed _ octets _ => octets

/-- What a datagram made arrive. -/
def deliveries : Contact → List Delivery
  | sent _ _ (.ok deliveries) => deliveries.map Prod.snd
  | _ => []

end Contact

/-! ### Taking notes -/

/-- The network with a list of all contacts beside its state. -/
def Network.noted {σ : Type} (net : Network σ) : Network (σ × List Contact) where
  chooseId s :=
    let (id, world) := net.chooseId s.1
    (id, (world, s.2))
  send server octets s :=
    let (outcome, world) := net.send server octets s.1
    (outcome, (world, s.2 ++ [.sent server octets outcome]))
  converse server octets s :=
    let (conversation, world) := net.converse server octets s.1
    (conversation, (world, s.2 ++ [.conversed server octets conversation.reply]))

namespace Link

variable {σ : Type}

/-- The link with notes beside the state of the network. -/
def noting (l : Link σ) (log : List Contact) : Link (σ × List Contact) :=
  ⟨(l.world, log), l.clock, l.inbox⟩

/-- The link without the notes. -/
def unnoted (l : Link (σ × List Contact)) : Link σ :=
  ⟨l.world.1, l.clock, l.inbox⟩

/-- The contacts noted so far. -/
def log (l : Link (σ × List Contact)) : List Contact :=
  l.world.2

/-- The link after one more contact, which has left the network in the state `world`. -/
def note (l : Link (σ × List Contact)) (world : σ) (c : Contact) : Link (σ × List Contact) :=
  { l with world := (world, l.log ++ [c]) }

@[simp] theorem log_note (l : Link (σ × List Contact)) (world : σ) (c : Contact) :
    (l.note world c).log = l.log ++ [c] := rfl

@[simp] theorem log_deliver (l : Link (σ × List Contact)) (deliveries : List (Nat × Delivery)) :
    (l.deliver deliveries).log = l.log := rfl

theorem noted_send {net : Network σ} {l : Link (σ × List Contact)} {server : Endpoint}
    {octets : List UInt8} {outcome : Except String (List (Nat × Delivery))} {world : σ}
    (hsend : net.send server octets l.world.1 = (outcome, world)) :
    net.noted.send server octets l.world =
      (outcome, (l.note world (.sent server octets outcome)).world) := by
  simp only [Network.noted, hsend, note, log]

end Link

namespace Exchange

variable {σ : Type}

/-! ### One attempt -/

/-- Waits for a reply until the waiting time of an attempt is over. -/
def listen (settings : ExchangeSettings) (time : Timeline) (query : Query) (l : Link σ) :
    Waited × Link σ :=
  let (waited, clock, inbox) :=
    await settings time query (l.clock + settings.timeout) l.clock l.inbox
  (waited, { l with clock, inbox })

variable (net : Network σ) (settings : ExchangeSettings) (time : Timeline) (query : Query)

/-- Goes on after waiting; `attempts` may still be made. -/
def goOn (attempts : Nat) : Waited → Link σ → Exchanged × Link σ
  | .failed reason, l => (⟨.error (.transport query.server.text reason), []⟩, l)
  | .timedOut, l | .garbled, l => attempt net settings time query attempts l
  | .reply m, l => conclude net settings time query m l

theorem attempt_of_send_error {n : Nat} {l : Link σ} {reason : String} {world : σ}
    (hsend : net.send query.server query.octets l.world = (.error reason, world)) :
    attempt net settings time query (n + 1) l =
      (⟨.error (.transport query.server.text reason),
        [.querySent .udp query.question query.server query.id]⟩, { l with world }) := by
  rw [attempt, hsend]

theorem attempt_of_send {n : Nat} {l heard : Link σ} {deliveries : List (Nat × Delivery)}
    {world : σ} {waited : Waited}
    (hsend : net.send query.server query.octets l.world = (.ok deliveries, world))
    (hlisten : listen settings time query ({ l with world }.deliver deliveries) =
      (waited, heard)) :
    attempt net settings time query (n + 1) l =
      (⟨(goOn net settings time query n waited heard).1.outcome,
        .querySent .udp query.question query.server query.id ::
          (goOn net settings time query n waited heard).1.trace⟩,
        (goOn net settings time query n waited heard).2) := by
  cases hlisten
  rw [attempt, hsend]
  simp only
  cases (await settings time query _ _ _).1 with
  | reply _ => rfl
  | garbled => rfl
  | timedOut => rfl
  | failed _ => rfl

theorem run_of_fault {q : Question} {server : Address} {l : Link σ} {id : UInt16} {world : σ}
    {fault : Wire.Fault} (hid : net.chooseId l.world = (id, world))
    (hencode : Wire.encodeQuery q id = .error fault) :
    run net settings time q server l = (⟨.error fault.toFailure, []⟩, { l with world }) := by
  simp only [run, hid, hencode]

theorem run_of_octets {q : Question} {server : Address} {l : Link σ} {id : UInt16} {world : σ}
    {octets : List UInt8} (hid : net.chooseId l.world = (id, world))
    (hencode : Wire.encodeQuery q id = .ok octets) :
    run net settings time q server l =
      attempt net settings time ⟨q, ⟨server, settings.port⟩, id, octets⟩ settings.attempts
        { l with world } := by
  simp only [run, hid, hencode]

/-! ### Notes change nothing -/

theorem listen_noted (l : Link (σ × List Contact)) :
    listen settings time query l.unnoted =
      ((listen settings time query l).1, (listen settings time query l).2.unnoted) := rfl

theorem conclude_noted (m : Message) (l : Link (σ × List Contact)) :
    conclude net settings time query m l.unnoted =
      ((conclude net.noted settings time query m l).1,
        (conclude net.noted settings time query m l).2.unnoted) := by
  unfold conclude
  split
  · rfl
  · rfl

theorem attempt_noted (n : Nat) (l : Link (σ × List Contact)) :
    attempt net settings time query n l.unnoted =
      ((attempt net.noted settings time query n l).1,
        (attempt net.noted settings time query n l).2.unnoted) := by
  induction n generalizing l with
  | zero => rfl
  | succ n ih =>
    -- after the waiting an exchange ends, or it goes on with fewer attempts
    have hgoOn : ∀ waited (l : Link (σ × List Contact)),
        goOn net settings time query n waited l.unnoted =
          ((goOn net.noted settings time query n waited l).1,
            (goOn net.noted settings time query n waited l).2.unnoted) := by
      intro waited l
      cases waited with
      | reply m => exact conclude_noted net settings time query m l
      | garbled => exact ih l
      | timedOut => exact ih l
      | failed reason => rfl
    cases hsend : net.send query.server query.octets l.world.1 with
    | mk outcome world =>
    have hnoted := Link.noted_send hsend
    cases outcome with
    | error reason =>
      rw [attempt_of_send_error net settings time query hsend,
        attempt_of_send_error net.noted settings time query hnoted]
      rfl
    | ok deliveries =>
      cases hlisten : listen settings time query
        ((l.note world (.sent query.server query.octets (.ok deliveries))).deliver deliveries) with
      | mk waited heard =>
      have hheard : listen settings time query ({ l.unnoted with world }.deliver deliveries) =
          (waited, heard.unnoted) := by
        have := listen_noted settings time query
          ((l.note world (.sent query.server query.octets (.ok deliveries))).deliver deliveries)
        rw [hlisten] at this
        exact this
      rw [attempt_of_send net settings time query hsend hheard,
        attempt_of_send net.noted settings time query hnoted hlisten, hgoOn]

/-- An exchange over a noting network is the same exchange. -/
theorem run_noted (q : Question) (server : Address) (l : Link (σ × List Contact)) :
    run net settings time q server l.unnoted =
      ((run net.noted settings time q server l).1,
        (run net.noted settings time q server l).2.unnoted) := by
  cases hid : net.chooseId l.world.1 with
  | mk id world =>
  have hnoted : net.noted.chooseId l.world = (id, (world, l.log)) := by
    simp only [Network.noted, hid, Link.log]
  cases hencode : Wire.encodeQuery q id with
  | error fault =>
    rw [run_of_fault net settings time hid hencode,
      run_of_fault net.noted settings time hnoted hencode]
    rfl
  | ok octets =>
    rw [run_of_octets net settings time hid hencode,
      run_of_octets net.noted settings time hnoted hencode, ← attempt_noted]
    rfl

/-- The contacts of an exchange. -/
def contacts (q : Question) (server : Address) (l : Link σ) : List Contact :=
  (run net.noted settings time q server (l.noting [])).2.log

end Exchange

end IterativeDns
