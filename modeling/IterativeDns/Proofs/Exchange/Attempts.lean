import IterativeDns.Proofs.Exchange.Replies
import IterativeDns.Proofs.Exchange.Strays

/-!
# Attempts

An exchange as a machine. Its phases (`Phase`) are being ready to send the query, waiting with a
deadline, having read a reply, and being over; its acts (`Act`) are everything that happens, with
the time at which it happens. `Step` has one rule for each way to act and `Course` is a history of
acts from one phase to another. Every exchange is a course of this machine (`course_attempt`), and
the contacts it makes are those of its acts.

**What may happen when** (`exchange_in_order`). Which act is allowed depends on the history alone
(`Allowed`):

* the query is sent only at the start or when an attempt is over, which is the case when its
  deadline has come or a matching datagram could not be read;
* an attempt is a sent query and the datagrams dropped since (`OpenSince`); whatever is read in it
  is read by the deadline, which is set when the query is sent and stays where it is;
* the deadline comes when all that has arrived by then has been read;
* a stream is used only right after a truncated reply.

`Ended` says how the history of a whole exchange looks and what its outcome is then. What carries
the proof is `Tells`, by which the history determines the phase: each step is allowed by it and
keeps it (`tells_step`), so it holds along every course.
-/

namespace IterativeDns

variable {σ : Type}

/-- The arrival is the next one to be read by the deadline, and `inbox` is what stands behind it. -/
def Link.Due (l : Link σ) (deadline : Nat) (a : Arrival) (inbox : Inbox) : Prop :=
  l.inbox = a :: inbox ∧ a.time ≤ deadline

/-- The link when an arrival has been read. -/
def Link.afterReading (l : Link σ) (a : Arrival) (inbox : Inbox) : Link σ :=
  { l with clock := max l.clock a.time, inbox }

namespace Exchange

/-! ### The machine -/

/-- What happens in an exchange, and when. -/
inductive Act where
  /-- The query is sent. -/
  | send (time : Nat) (outcome : Except String (List (Nat × Delivery)))
  /-- A datagram that does not match the query is dropped. -/
  | drop (time : Nat) (a : Arrival)
  /-- A datagram that matches the query cannot be read. -/
  | garble (time : Nat) (a : Arrival)
  /-- A datagram that matches the query is read. -/
  | accept (time : Nat) (a : Arrival) (m : Message)
  /-- The socket fails. -/
  | fail (time : Nat) (a : Arrival) (reason : String)
  /-- The deadline has come. -/
  | expire (time : Nat)
  /-- The query is asked over a stream. -/
  | converse (time : Nat) (conversation : Conversation)

namespace Act

def isSend : Act → Bool
  | send _ _ => true
  | _ => false

/-- The exchange is not over after the act, and has no reply. -/
def GoesOn : Act → Prop
  | send _ (.ok _) | drop _ _ | garble _ _ | expire _ => True
  | _ => False

/-- The contact with the server that is made. -/
def contact (query : Query) : Act → Option Contact
  | send _ outcome => some (.sent query.server query.octets outcome)
  | converse _ conversation => some (.conversed query.server query.octets conversation.reply)
  | _ => none

/-- What a sent query makes arrive. -/
def arrivals : Act → List Arrival
  | send time (.ok deliveries) => deliveries.map fun (delay, d) => ⟨time + delay, d⟩
  | _ => []

/-- How many milliseconds the stream takes that is used. -/
def elapsed : Act → Nat
  | converse _ conversation => conversation.elapsed
  | _ => 0

/-- The arrival that is read. -/
def arrival : Act → Option Arrival
  | drop _ a | garble _ a | accept _ a _ | fail _ a _ => some a
  | _ => none

end Act

/-- Where an exchange stands. -/
inductive Phase (σ : Type) where
  /-- So many attempts may still be made. -/
  | ready (attempts : Nat) (l : Link σ)
  | waiting (attempts deadline : Nat) (l : Link σ)
  | answered (m : Message) (l : Link σ)
  | finished (outcome : Except Failure Reply) (l : Link σ)

/-- The reply is not taken but asked for again over a stream. -/
def redirects (settings : ExchangeSettings) (m : Message) : Bool :=
  m.flags.truncated && settings.useTcp

/-- What an exchange comes to if nothing more happens in it. -/
def Phase.result (settings : ExchangeSettings) :
    Phase σ → Option (Except Failure Reply × Link σ)
  | ready 0 l => some (.ok .silence, l)
  | ready (_ + 1) _ => none
  | waiting _ _ _ => none
  | answered m l => if redirects settings m then none else some (.ok (.message m), l)
  | finished outcome l => some (outcome, l)

section Machine

variable (net : Network σ) (settings : ExchangeSettings) (time : Timeline) (query : Query)

/-- The delivery is a datagram that matches the query but makes no sense. -/
def Garbles (now : Instant) (d : Delivery) : Prop :=
  ¬d.IsStray query.server query.id ∧ ∃ source octets fault,
    d = .datagram source octets ∧ Wire.decode now (readable settings octets) = .error fault

/-- The delivery is a datagram that matches the query and is read as a message. -/
def Answers (now : Instant) (d : Delivery) (m : Message) : Prop :=
  ¬d.IsStray query.server query.id ∧ ∃ source octets,
    d = .datagram source octets ∧ Wire.decode now (readable settings octets) = .ok m

/-- What an exchange comes to when the network fails. -/
def broken (reason : String) : Except Failure Reply :=
  .error (.transport query.server.text reason)

/-- One step of an exchange. -/
inductive Step : Phase σ → Act → Phase σ → Prop
  | send {n l deliveries world}
      (hsend : net.send query.server query.octets l.world = (.ok deliveries, world)) :
      Step (.ready (n + 1) l) (.send l.clock (.ok deliveries))
        (.waiting n (l.clock + settings.timeout) ({ l with world }.deliver deliveries))
  | refuse {n l reason world}
      (hsend : net.send query.server query.octets l.world = (.error reason, world)) :
      Step (.ready (n + 1) l) (.send l.clock (.error reason))
        (.finished (broken query reason) { l with world })
  /-- The deadline stays where it was, and no attempt is lost. -/
  | drop {n deadline l a inbox} (hdue : l.Due deadline a inbox)
      (hstray : a.delivery.IsStray query.server query.id) :
      Step (.waiting n deadline l) (.drop (max l.clock a.time) a)
        (.waiting n deadline (l.afterReading a inbox))
  | garble {n deadline l a inbox} (hdue : l.Due deadline a inbox)
      (hgarbles : Garbles settings query (time.instant (max l.clock a.time)) a.delivery) :
      Step (.waiting n deadline l) (.garble (max l.clock a.time) a)
        (.ready n (l.afterReading a inbox))
  | accept {n deadline l a inbox m} (hdue : l.Due deadline a inbox)
      (hanswers : Answers settings query (time.instant (max l.clock a.time)) a.delivery m) :
      Step (.waiting n deadline l) (.accept (max l.clock a.time) a m)
        (.answered m (l.afterReading a inbox))
  | fail {n deadline l a inbox reason} (hdue : l.Due deadline a inbox)
      (hfailure : a.delivery = .failure reason) :
      Step (.waiting n deadline l) (.fail (max l.clock a.time) a reason)
        (.finished (broken query reason) (l.afterReading a inbox))
  | expire {n deadline l} (hlate : ∀ a ∈ l.inbox.head?, deadline < a.time) :
      Step (.waiting n deadline l) (.expire (max l.clock deadline))
        (.ready n { l with clock := max l.clock deadline })
  | converse {m l conversation world} (hredirects : redirects settings m = true)
      (hconverse : net.converse query.server query.octets l.world = (conversation, world)) :
      Step (.answered m l) (.converse l.clock conversation)
        (.finished
          (streamed (time.instant (l.clock + conversation.elapsed)) query conversation.reply)
          { l with world, clock := l.clock + conversation.elapsed })

/-- Acts that lead from one phase to another. -/
inductive Course (start : Phase σ) : List Act → Phase σ → Prop
  | nil : Course start [] start
  | concat {acts p a r} (hcourse : Course start acts p)
      (hstep : Step net settings time query p a r) : Course start (acts ++ [a]) r

variable {net settings time query}

theorem Course.single {p r : Phase σ} {a : Act} (h : Step net settings time query p a r) :
    Course net settings time query p [a] r :=
  Course.nil.concat h

theorem Course.append {p r s : Phase σ} {acts more : List Act}
    (h : Course net settings time query p acts r) (h' : Course net settings time query r more s) :
    Course net settings time query p (acts ++ more) s := by
  induction h' with
  | nil => rwa [List.append_nil]
  | concat _ hstep ih =>
    rw [← List.append_assoc]
    exact ih.concat hstep

/-! ### Exchanges are courses -/

theorem judge_of_not_isStray {now : Instant} {source : Endpoint} {octets : List UInt8}
    (h : ¬(Delivery.datagram source octets).IsStray query.server query.id) :
    judge now query source (readable settings octets) =
      match Wire.decode now (readable settings octets) with
      | .ok m => .reply m
      | .error _ => .garbled := by
  have hreply : isReply query.server query.id source octets = true := by
    rwa [isStray_iff, Bool.not_eq_false] at h
  cases hdecode : Wire.decode now (readable settings octets) <;>
    simp only [judge, isReply_readable, hreply, hdecode, if_true]

variable (query) in
/-- The phase after waiting. -/
def afterWaiting (n : Nat) (l : Link σ) : Waited → Phase σ
  | .failed reason => .finished (broken query reason) l
  | .timedOut | .garbled => .ready n l
  | .reply m => .answered m l

/-- Waiting is a course, in which no contacts are made. -/
theorem course_await (n deadline : Nat) (world : σ) (clock : Nat) (inbox : Inbox) :
    ∃ acts, acts.filterMap (Act.contact query) = [] ∧
      Course net settings time query (.waiting n deadline ⟨world, clock, inbox⟩) acts
        (afterWaiting query n
          { world
            clock := (await settings time query deadline clock inbox).2.1
            inbox := (await settings time query deadline clock inbox).2.2 }
          (await settings time query deadline clock inbox).1) := by
  induction inbox generalizing clock with
  | nil => exact ⟨[.expire (max clock deadline)], rfl, .single (.expire nofun)⟩
  | cons a inbox ih =>
    by_cases hlate : deadline < a.time
    · rw [await, if_pos hlate]
      refine ⟨[.expire (max clock deadline)], rfl, .single (.expire ?_)⟩
      intro b hb
      cases hb
      exact hlate
    have hdue : Link.Due ⟨world, clock, a :: inbox⟩ deadline a inbox :=
      ⟨rfl, Nat.le_of_not_lt hlate⟩
    rw [await, if_neg hlate]
    cases hdelivery : a.delivery with
    | failure reason =>
      exact ⟨[.fail (max clock a.time) a reason], rfl, .single (.fail hdue hdelivery)⟩
    | datagram source octets =>
      by_cases hstray : (Delivery.datagram source octets).IsStray query.server query.id
      · simp only [judge_of_isStray hstray]
        obtain ⟨acts, hcontacts, hcourse⟩ := ih (max clock a.time)
        refine ⟨.drop (max clock a.time) a :: acts, hcontacts, ?_⟩
        exact (Course.single (.drop hdue (hdelivery ▸ hstray))).append hcourse
      · simp only [judge_of_not_isStray hstray]
        cases hdecode :
            Wire.decode (time.instant (max clock a.time)) (readable settings octets) with
        | error fault =>
          refine ⟨[.garble (max clock a.time) a], rfl, .single (.garble hdue ?_)⟩
          exact ⟨hdelivery ▸ hstray, source, octets, fault, hdelivery, hdecode⟩
        | ok m =>
          refine ⟨[.accept (max clock a.time) a m], rfl, .single (.accept hdue ?_)⟩
          exact ⟨hdelivery ▸ hstray, source, octets, hdelivery, hdecode⟩

theorem course_listen (n : Nat) (l : Link σ) :
    ∃ acts, acts.filterMap (Act.contact query) = [] ∧
      Course net settings time query (.waiting n (l.clock + settings.timeout) l) acts
        (afterWaiting query n (listen settings time query l).2 (listen settings time query l).1) :=
  course_await n (l.clock + settings.timeout) l.world l.clock l.inbox

variable (net settings time query) in
/-- From the phase a course leads to what has come of an exchange, and the contacts of its acts have
been noted behind `log`. -/
def ComesTo (p : Phase σ) (log : List Contact) (outcome : Except Failure Reply)
    (l : Link (σ × List Contact)) : Prop :=
  ∃ acts last, Course net settings time query p acts last ∧
    last.result settings = some (outcome, l.unnoted) ∧
    l.log = log ++ acts.filterMap (Act.contact query)

theorem ComesTo.nil {p : Phase σ} {outcome : Except Failure Reply} {l : Link (σ × List Contact)}
    (h : p.result settings = some (outcome, l.unnoted)) :
    ComesTo net settings time query p l.log outcome l :=
  ⟨[], p, .nil, h, (List.append_nil _).symm⟩

theorem Course.comesTo {p p' : Phase σ} {acts : List Act} {log : List Contact}
    {outcome : Except Failure Reply} {l : Link (σ × List Contact)}
    (h : Course net settings time query p acts p')
    (hcomes : ComesTo net settings time query p' (log ++ acts.filterMap (Act.contact query))
      outcome l) :
    ComesTo net settings time query p log outcome l := by
  obtain ⟨more, last, hmore, hlast, hlog⟩ := hcomes
  refine ⟨acts ++ more, last, h.append hmore, hlast, ?_⟩
  rw [hlog, List.filterMap_append, List.append_assoc]

theorem comesTo_conclude (m : Message) (l : Link (σ × List Contact)) :
    ComesTo net settings time query (.answered m l.unnoted) l.log
      (conclude net.noted settings time query m l).1.outcome
      (conclude net.noted settings time query m l).2 := by
  cases hredirects : redirects settings m with
  | false =>
    have hconclude : conclude net.noted settings time query m l = (⟨.ok (.message m), []⟩, l) :=
      if_neg (ne_true_of_eq_false hredirects)
    rw [hconclude]
    refine .nil ?_
    rw [Phase.result, if_neg (ne_true_of_eq_false hredirects)]
  | true =>
    cases hconverse : net.converse query.server query.octets l.world.1 with
    | mk conversation world =>
    let clock := l.clock + conversation.elapsed
    have hconclude : conclude net.noted settings time query m l =
        (⟨streamed (time.instant clock) query conversation.reply,
            [m.headerEvent, .querySent .tcp query.question query.server query.id]⟩,
          { l.note world (.conversed query.server query.octets conversation.reply) with
            clock }) := by
      refine (if_pos hredirects).trans ?_
      simp only [overStream, Network.noted, hconverse]
      rfl
    rw [hconclude]
    exact ⟨[.converse l.clock conversation], _, .single (.converse hredirects hconverse), rfl, rfl⟩

/-- Every exchange is a course, and its contacts are those of its acts. -/
theorem course_attempt (n : Nat) (l : Link (σ × List Contact)) :
    ComesTo net settings time query (.ready n l.unnoted) l.log
      (attempt net.noted settings time query n l).1.outcome
      (attempt net.noted settings time query n l).2 := by
  induction n generalizing l with
  | zero => exact .nil rfl
  | succ n ih =>
    have hgoOn : ∀ waited (l : Link (σ × List Contact)),
        ComesTo net settings time query (afterWaiting query n l.unnoted waited) l.log
          (goOn net.noted settings time query n waited l).1.outcome
          (goOn net.noted settings time query n waited l).2 := by
      intro waited l
      cases waited with
      | failed reason => exact .nil rfl
      | timedOut => exact ih l
      | garbled => exact ih l
      | reply m => exact comesTo_conclude m l
    cases hsend : net.send query.server query.octets l.world.1 with
    | mk outcome world =>
    have hnoted := Link.noted_send hsend
    cases outcome with
    | error reason =>
      rw [attempt_of_send_error net.noted settings time query hnoted]
      exact ⟨[.send l.clock (.error reason)], _, .single (.refuse hsend), rfl, rfl⟩
    | ok deliveries =>
      let sent := (l.note world (.sent query.server query.octets (.ok deliveries))).deliver
        deliveries
      have hsent : Course net settings time query (.ready (n + 1) l.unnoted)
          [.send l.clock (.ok deliveries)]
          (.waiting n (l.clock + settings.timeout) sent.unnoted) := .single (.send hsend)
      obtain ⟨acts, hnone, hlistened⟩ : ∃ acts, acts.filterMap (Act.contact query) = [] ∧
          Course net settings time query (.waiting n (l.clock + settings.timeout) sent.unnoted) acts
            (afterWaiting query n (listen settings time query sent).2.unnoted
              (listen settings time query sent).1) := course_listen n sent.unnoted
      rw [attempt_of_send net.noted settings time query hnoted rfl]
      refine (hsent.append hlistened).comesTo ?_
      rw [List.filterMap_append, hnone, List.append_nil]
      exact hgoOn (listen settings time query sent).1 (listen settings time query sent).2

end Machine

/-! ### Histories -/

/-- Everything that has reached the socket: what was in the inbox at the start, and what the
queries that were sent made arrive. -/
def arrived (inbox : Inbox) (acts : List Act) : List Arrival :=
  inbox ++ acts.flatMap Act.arrivals

/-- An attempt is under way: its query was sent at the time `sent`, and datagrams have been dropped
since. -/
def OpenSince (acts : List Act) (sent : Nat) : Prop :=
  ∃ earlier deliveries dropped, acts = earlier ++ .send sent (.ok deliveries) :: dropped ∧
    ∀ act ∈ dropped, ∃ time a, act = .drop time a

/-- At the time, an attempt has ended without a reply. -/
def AttemptOver (acts : List Act) (time : Nat) : Prop :=
  acts.getLast? = some (.expire time) ∨ ∃ a, acts.getLast? = some (.garble time a)

/-- How many milliseconds the stream took, if one was used at the end. -/
def streamTime (acts : List Act) : Nat :=
  acts.getLast?.elim 0 Act.elapsed

section Histories

variable (settings : ExchangeSettings) (time : Timeline) (query : Query) (start : Link σ)

/-- At the time an arrival is read in an attempt, after it has come and by the deadline. -/
structure IsRead (before : List Act) (clock : Nat) (a : Arrival) : Prop where
  arrived : a ∈ arrived start.inbox before
  due : a.time ≤ clock
  inAttempt : ∃ sent, OpenSince before sent ∧ clock ≤ sent + settings.timeout

/-- An act may follow a history. -/
def Allowed (before : List Act) : Act → Prop
  | .send clock _ => before.countP Act.isSend < settings.attempts ∧
      (before = [] ∧ clock = start.clock ∨ AttemptOver before clock)
  | .drop clock a => IsRead settings start before clock a ∧
      a.delivery.IsStray query.server query.id
  | .garble clock a => IsRead settings start before clock a ∧
      Garbles settings query (time.instant clock) a.delivery
  | .accept clock a m => IsRead settings start before clock a ∧
      Answers settings query (time.instant clock) a.delivery m
  | .fail clock a reason => IsRead settings start before clock a ∧ a.delivery = .failure reason
  | .expire clock => (∃ sent, OpenSince before sent ∧ clock = sent + settings.timeout) ∧
      -- nothing but what comes later is left unread
      ∃ left, (arrived start.inbox before).Perm (before.filterMap Act.arrival ++ left) ∧
        ∀ a ∈ left, clock < a.time
  | .converse clock _ => ∃ a m, before.getLast? = some (.accept clock a m) ∧
      redirects settings m = true

/-- How a whole exchange looks, with its outcome. -/
inductive Ended : List Act → Except Failure Reply → Prop
  /-- All attempts were made, and all in vain. -/
  | silence {acts} (hall : ∀ act ∈ acts, act.GoesOn)
      (hsends : acts.countP Act.isSend = settings.attempts)
      (hover : acts = [] ∨ ∃ clock, AttemptOver acts clock) : Ended acts (.ok .silence)
  /-- The first reply is taken. -/
  | message {earlier clock a m} (hearlier : ∀ act ∈ earlier, act.GoesOn)
      (hkept : redirects settings m = false) :
      Ended (earlier ++ [.accept clock a m]) (.ok (.message m))
  /-- The first reply is truncated, and the reply of the stream decides. -/
  | stream {earlier clock a m conversation} (hearlier : ∀ act ∈ earlier, act.GoesOn)
      (hredirects : redirects settings m = true) :
      Ended (earlier ++ [.accept clock a m, .converse clock conversation])
        (streamed (time.instant (clock + conversation.elapsed)) query conversation.reply)
  | unsent {earlier clock reason} (hearlier : ∀ act ∈ earlier, act.GoesOn) :
      Ended (earlier ++ [.send clock (.error reason)]) (broken query reason)
  | unread {earlier clock a reason} (hearlier : ∀ act ∈ earlier, act.GoesOn) :
      Ended (earlier ++ [.fail clock a reason]) (broken query reason)

/-- The history of an exchange that has no reply yet; `n` attempts may still be made. -/
structure Underway (acts : List Act) (n : Nat) (l : Link σ) : Prop where
  goesOn : ∀ act ∈ acts, act.GoesOn
  sends : acts.countP Act.isSend + n = settings.attempts
  sorted : l.inbox.IsSorted
  /-- What has arrived has been read or is in the inbox. -/
  accounted : (arrived start.inbox acts).Perm (acts.filterMap Act.arrival ++ l.inbox)

/-- Neither the number of attempts nor the waiting time of all of them is exceeded; the time that a
stream takes comes on top. -/
structure InBounds (acts : List Act) (clock : Nat) : Prop where
  sends : acts.countP Act.isSend ≤ settings.attempts
  clock : clock ≤ start.clock + settings.attempts * settings.timeout + streamTime acts

/-- What the history tells about the phase it has led to. -/
def Tells (acts : List Act) : Phase σ → Prop
  | .ready n l => Underway settings start acts n l ∧
      (acts = [] ∧ l.clock = start.clock ∨ AttemptOver acts l.clock) ∧
      l.clock + n * settings.timeout ≤ start.clock + settings.attempts * settings.timeout
  | .waiting n deadline l => Underway settings start acts n l ∧
      (∃ sent, OpenSince acts sent ∧ deadline = sent + settings.timeout) ∧ l.clock ≤ deadline ∧
      deadline + n * settings.timeout ≤ start.clock + settings.attempts * settings.timeout
  | .answered m l => InBounds settings start acts l.clock ∧ ∃ earlier a,
      acts = earlier ++ [.accept l.clock a m] ∧ ∀ act ∈ earlier, act.GoesOn
  | .finished outcome l => InBounds settings start acts l.clock ∧
      Ended settings time query acts outcome

end Histories

/-! ### What steps preserve -/

theorem arrived_concat (inbox : Inbox) (acts : List Act) (act : Act) :
    arrived inbox (acts ++ [act]) = arrived inbox acts ++ act.arrivals := by
  rw [arrived, List.flatMap_append, List.flatMap_singleton, ← List.append_assoc, arrived]

theorem sends_concat_send (acts : List Act) (time : Nat)
    (outcome : Except String (List (Nat × Delivery))) :
    (acts ++ [Act.send time outcome]).countP Act.isSend = acts.countP Act.isSend + 1 :=
  List.countP_append

theorem sends_concat_of_not_send {acts : List Act} {act : Act} (h : act.isSend = false) :
    (acts ++ [act]).countP Act.isSend = acts.countP Act.isSend := by
  rw [List.countP_append, List.countP_singleton, if_neg (ne_true_of_eq_false h), Nat.add_zero]

theorem OpenSince.concat_drop {acts : List Act} {sent : Nat} (h : OpenSince acts sent)
    (time : Nat) (a : Arrival) : OpenSince (acts ++ [.drop time a]) sent := by
  obtain ⟨earlier, deliveries, dropped, rfl, hdropped⟩ := h
  refine ⟨earlier, deliveries, dropped ++ [.drop time a], ?_, ?_⟩
  · rw [List.append_assoc, List.cons_append]
  · intro act hact
    rcases List.mem_append.1 hact with hact | hact
    · exact hdropped act hact
    · exact ⟨time, a, List.mem_singleton.1 hact⟩

section Preservation

variable {net : Network σ} {settings : ExchangeSettings} {time : Timeline} {query : Query}
  {start l : Link σ} {acts : List Act} {n deadline : Nat} {a : Arrival} {inbox : Inbox}

/-- One more attempt is made. -/
theorem Underway.send (h : Underway settings start acts (n + 1) l)
    (deliveries : List (Nat × Delivery)) (world : σ) :
    Underway settings start (acts ++ [.send l.clock (.ok deliveries)]) n
      ({ l with world }.deliver deliveries) where
  goesOn := List.forall_mem_append.2 ⟨h.goesOn, List.forall_mem_singleton.2 trivial⟩
  sends := by
    rw [sends_concat_send, Nat.add_assoc, Nat.add_comm 1]
    exact h.sends
  sorted := h.sorted.insertAll _
  accounted := by
    let more := (Act.send l.clock (.ok deliveries)).arrivals
    have hinbox : (l.inbox ++ more).Perm (l.inbox.insertAll more) :=
      (Inbox.perm_insertAll l.inbox more).symm
    have hmore : (arrived start.inbox acts ++ more).Perm
        (acts.filterMap Act.arrival ++ l.inbox.insertAll more) := by
      refine (h.accounted.append_right more).trans ?_
      rw [List.append_assoc]
      exact hinbox.append_left _
    rw [arrived_concat, List.filterMap_append]
    exact (List.append_nil (acts.filterMap Act.arrival)).symm ▸ hmore

/-- The next arrival is read, and the exchange goes on. -/
theorem Underway.read (h : Underway settings start acts n l) (hdue : l.Due deadline a inbox)
    {act : Act} (hgoesOn : act.GoesOn) (hsend : act.isSend = false) (harrivals : act.arrivals = [])
    (harrival : act.arrival = some a) :
    Underway settings start (acts ++ [act]) n (l.afterReading a inbox) where
  goesOn := List.forall_mem_append.2 ⟨h.goesOn, List.forall_mem_singleton.2 hgoesOn⟩
  sends := by
    rw [sends_concat_of_not_send hsend]
    exact h.sends
  sorted := by
    have hsorted := h.sorted
    rw [hdue.1] at hsorted
    exact (List.pairwise_cons.1 hsorted).2
  accounted := by
    have haccounted := h.accounted
    rw [hdue.1] at haccounted
    rw [arrived_concat, harrivals, List.append_nil, List.filterMap_append, List.append_assoc,
      List.filterMap_cons_some harrival]
    exact haccounted

theorem Underway.isRead (h : Underway settings start acts n l) (hdue : l.Due deadline a inbox)
    (hopen : ∃ sent, OpenSince acts sent ∧ deadline = sent + settings.timeout)
    (hclock : l.clock ≤ deadline) : IsRead settings start acts (max l.clock a.time) a where
  arrived := by
    refine h.accounted.mem_iff.2 (List.mem_append_right _ ?_)
    rw [hdue.1]
    exact List.mem_cons_self
  due := Nat.le_max_right _ _
  inAttempt := by
    obtain ⟨sent, hopen, rfl⟩ := hopen
    exact ⟨sent, hopen, Nat.max_le.2 ⟨hclock, hdue.2⟩⟩

/-- An attempt is given up. -/
theorem Underway.expire (h : Underway settings start acts n l) (time : Nat) :
    Underway settings start (acts ++ [.expire time]) n { l with clock := time } where
  goesOn := List.forall_mem_append.2 ⟨h.goesOn, List.forall_mem_singleton.2 trivial⟩
  sends := by
    rw [sends_concat_of_not_send rfl]
    exact h.sends
  sorted := h.sorted
  accounted := by
    have haccounted := h.accounted
    rw [arrived_concat, List.filterMap_append]
    rwa [show (Act.expire time).arrivals = [] from rfl, List.append_nil,
      show [Act.expire time].filterMap Act.arrival = [] from rfl, List.append_nil]

/-- The next arrival is read, and there are no attempts after it. -/
theorem Underway.inBounds (h : Underway settings start acts n l) (hdue : l.Due deadline a inbox)
    (hclock : l.clock ≤ deadline)
    (hbound : deadline + n * settings.timeout ≤ start.clock + settings.attempts * settings.timeout)
    {act : Act} (hsend : act.isSend = false) :
    InBounds settings start (acts ++ [act]) (l.afterReading a inbox).clock where
  sends := by
    rw [sends_concat_of_not_send hsend]
    exact Nat.le_of_add_right_le (Nat.le_of_eq h.sends)
  clock := by
    have hread : max l.clock a.time ≤ deadline := Nat.max_le.2 ⟨hclock, hdue.2⟩
    exact Nat.le_add_right_of_le (Nat.le_trans hread (Nat.le_of_add_right_le hbound))

/-- The history allows every step, and it tells about the phase after it as well. -/
theorem tells_step {p r : Phase σ} {act : Act} (h : Tells settings time query start acts p)
    (hstep : Step net settings time query p act r) :
    Allowed settings time query start acts act ∧
      Tells settings time query start (acts ++ [act]) r := by
  cases hstep with
  | @send n l deliveries world hsend =>
    obtain ⟨hunderway, hover, hbound⟩ := h
    have hsends := hunderway.sends
    refine ⟨⟨by omega, hover⟩, hunderway.send deliveries world, ⟨l.clock, ?_, rfl⟩,
      Nat.le_add_right _ _, ?_⟩
    · exact ⟨acts, deliveries, [], rfl, fun _ h => absurd h List.not_mem_nil⟩
    · rwa [Nat.add_assoc, Nat.add_comm settings.timeout, ← Nat.succ_mul]
  | @refuse n l reason world hsend =>
    obtain ⟨hunderway, hover, hbound⟩ := h
    have hsends := hunderway.sends
    refine ⟨⟨by omega, hover⟩, ⟨?_, Nat.le_add_right_of_le (Nat.le_of_add_right_le hbound)⟩,
      .unsent hunderway.goesOn⟩
    rw [sends_concat_send]
    omega
  | @drop n deadline l a inbox hdue hstray =>
    obtain ⟨hunderway, hopen, hclock, hbound⟩ := h
    refine ⟨⟨hunderway.isRead hdue hopen hclock, hstray⟩,
      hunderway.read hdue trivial rfl rfl rfl, ?_, Nat.max_le.2 ⟨hclock, hdue.2⟩, hbound⟩
    exact hopen.imp fun sent hopen => ⟨hopen.1.concat_drop _ _, hopen.2⟩
  | @garble n deadline l a inbox hdue hgarbles =>
    obtain ⟨hunderway, hopen, hclock, hbound⟩ := h
    refine ⟨⟨hunderway.isRead hdue hopen hclock, hgarbles⟩,
      hunderway.read hdue trivial rfl rfl rfl, .inr (.inr ⟨a, List.getLast?_concat⟩), ?_⟩
    have hread : max l.clock a.time ≤ deadline := Nat.max_le.2 ⟨hclock, hdue.2⟩
    exact Nat.le_trans (Nat.add_le_add_right hread _) hbound
  | @accept n deadline l a inbox m hdue hanswers =>
    obtain ⟨hunderway, hopen, hclock, hbound⟩ := h
    exact ⟨⟨hunderway.isRead hdue hopen hclock, hanswers⟩,
      hunderway.inBounds hdue hclock hbound rfl, acts, a, rfl, hunderway.goesOn⟩
  | @fail n deadline l a inbox reason hdue hfailure =>
    obtain ⟨hunderway, hopen, hclock, hbound⟩ := h
    exact ⟨⟨hunderway.isRead hdue hopen hclock, hfailure⟩,
      hunderway.inBounds hdue hclock hbound rfl, .unread hunderway.goesOn⟩
  | @expire n deadline l hlate =>
    obtain ⟨hunderway, ⟨sent, hopen, rfl⟩, hclock, hbound⟩ := h
    rw [Nat.max_eq_right hclock]
    refine ⟨⟨⟨sent, hopen, rfl⟩, l.inbox, hunderway.accounted, ?_⟩, hunderway.expire _,
      .inr (.inl List.getLast?_concat), hbound⟩
    exact hunderway.sorted.lt_of_head hlate
  | @converse m l conversation world hredirects hconverse =>
    obtain ⟨hbounds, earlier, a, rfl, hearlier⟩ := h
    refine ⟨⟨a, m, List.getLast?_concat, hredirects⟩, ⟨?_, ?_⟩, ?_⟩
    · rw [sends_concat_of_not_send rfl]
      exact hbounds.sends
    · have hclock := hbounds.clock
      rw [streamTime, List.getLast?_concat] at hclock ⊢
      exact Nat.add_le_add_right hclock conversation.elapsed
    · rw [List.append_assoc]
      exact .stream hearlier hredirects

/-- All acts of a course are allowed, and its history tells about the phase it has come to. -/
theorem tells_course {p r : Phase σ} (h : Tells settings time query start [] p)
    (hcourse : Course net settings time query p acts r) :
    (∀ before act after, acts = before ++ act :: after →
      Allowed settings time query start before act) ∧
    Tells settings time query start acts r := by
  induction hcourse with
  | nil => exact ⟨fun before act after hsplit => by simp at hsplit, h⟩
  | @concat acts _ act _ _ hstep ih =>
    obtain ⟨hallowed, htells⟩ := ih
    obtain ⟨hlast, htells⟩ := tells_step htells hstep
    refine ⟨?_, htells⟩
    intro before act' after hsplit
    rcases List.eq_nil_or_concat after with rfl | ⟨more, last, rfl⟩
    · obtain ⟨rfl, hact⟩ := List.append_inj' hsplit rfl
      cases hact
      exact hlast
    · rw [List.concat_eq_append, ← List.cons_append, ← List.append_assoc] at hsplit
      exact hallowed before act' more (List.append_inj' hsplit rfl).1

theorem tells_initial (hsorted : l.inbox.IsSorted) (world : σ) :
    Tells settings time query l [] (.ready settings.attempts { l with world }) := by
  refine ⟨⟨?_, Nat.zero_add _, hsorted, ?_⟩, .inl ⟨rfl, rfl⟩, Nat.le_refl _⟩
  · exact fun _ h => absurd h List.not_mem_nil
  · rw [arrived, List.flatMap_nil, List.append_nil]
    exact List.Perm.refl _

/-- In which phase nothing more has to happen. -/
theorem Tells.ended {p : Phase σ} {outcome : Except Failure Reply}
    (h : Tells settings time query start acts p) (hresult : p.result settings = some (outcome, l)) :
    InBounds settings start acts l.clock ∧ Ended settings time query acts outcome := by
  cases p with
  | ready n heard =>
    obtain ⟨hunderway, hover, hbound⟩ := h
    cases n with
    | zero =>
      cases hresult
      have hsends : acts.countP Act.isSend = settings.attempts := hunderway.sends
      refine ⟨⟨Nat.le_of_eq hsends, Nat.le_add_right_of_le (Nat.le_of_add_right_le hbound)⟩, ?_⟩
      exact .silence hunderway.goesOn hsends (hover.imp And.left fun hover => ⟨_, hover⟩)
    | succ n => cases hresult
  | waiting n deadline heard => cases hresult
  | answered m heard =>
    obtain ⟨hbounds, earlier, a, rfl, hearlier⟩ := h
    rw [Phase.result] at hresult
    split at hresult
    · cases hresult
    · next hkept =>
      cases hresult
      exact ⟨hbounds, .message hearlier (eq_false_of_ne_true hkept)⟩
  | finished outcome heard =>
    cases hresult
    exact h

end Preservation

/-! ### Main result -/

/-- Every exchange whose query can be written is a course of the machine, and in it everything
happens in order: each act is allowed after the acts before it, the query is sent at most as often
as there are attempts, the way the acts end decides the outcome, and the waiting for datagrams
takes no longer than all attempts may. -/
theorem exchange_in_order (net : Network σ) (settings : ExchangeSettings) (time : Timeline)
    (q : Question) (server : Address) (l : Link σ) (hsorted : l.inbox.IsSorted)
    {octets : List UInt8} (hencode : Wire.encodeQuery q (net.chooseId l.world).1 = .ok octets) :
    let query : Query := ⟨q, ⟨server, settings.port⟩, (net.chooseId l.world).1, octets⟩
    let r := run net settings time q server l
    ∃ acts last,
      Course net settings time query
        (.ready settings.attempts { l with world := (net.chooseId l.world).2 }) acts last ∧
      last.result settings = some (r.1.outcome, r.2) ∧
      contacts net settings time q server l = acts.filterMap (Act.contact query) ∧
      (∀ before act after, acts = before ++ act :: after →
        Allowed settings time query l before act) ∧
      acts.countP Act.isSend ≤ settings.attempts ∧
      Ended settings time query acts r.1.outcome ∧
      r.2.clock ≤ l.clock + settings.attempts * settings.timeout + streamTime acts := by
  intro query r
  let world := (net.chooseId l.world).2
  have hnoted : run net.noted settings time q server (l.noting []) =
      attempt net.noted settings time query settings.attempts
        (Link.noting { l with world } []) :=
    run_of_octets net.noted settings time rfl hencode
  obtain ⟨acts, last, hcourse, hresult, hlog⟩ :
      ComesTo net settings time query (.ready settings.attempts { l with world }) []
        (run net.noted settings time q server (l.noting [])).1.outcome
        (run net.noted settings time q server (l.noting [])).2 :=
    hnoted ▸ course_attempt settings.attempts (Link.noting { l with world } [])
  have hr : r = ((run net.noted settings time q server (l.noting [])).1,
      (run net.noted settings time q server (l.noting [])).2.unnoted) :=
    run_noted net settings time q server (l.noting [])
  obtain ⟨hallowed, htells⟩ := tells_course (tells_initial hsorted world) hcourse
  obtain ⟨hbounds, hended⟩ := htells.ended hresult
  rw [hr]
  exact ⟨acts, last, hcourse, hresult, hlog, hallowed, hbounds.sends, hended, hbounds.clock⟩

/-- The first query makes a reply arrive that is too short to make sense, the second one a truncated
reply that is late, and the third one nothing. A stream gets an empty reply. -/
def stammering : Network Nat where
  chooseId sends := (7, sends)
  send server _ sends :=
    match sends with
    | 0 => (.ok [(10, .datagram server [0, 7, 0x80, 0])], 1)
    | 1 => (.ok [(70, .datagram server [0, 7, 0x82, 0, 0, 0, 0, 0, 0, 0, 0, 0])], 2)
    | sends => (.ok [], sends + 1)
  converse _ _ sends := (⟨15, .ok [0, 7, 0x80, 0, 0, 0, 0, 0, 0, 0, 0, 0]⟩, sends)

/-- The query is sent three times; the reply to the second query is read when the third one waits,
and it is asked for again over a stream. -/
theorem late_reply_in_order :
    let settings : ExchangeSettings := ⟨53, 50, 3, 512, true⟩
    let q : Question := .ofText "example.com" .ns
    let server : Address := .ofQuad 192 0 2 53
    let l : Link Nat := { world := 0, inbox := [⟨0, .datagram ⟨.ofQuad 192 0 2 54, 53⟩ []⟩] }
    let r := run stammering settings (.since 0) q server l
    r.1.outcome.toOption = some (.message ⟨7, { response := true }, none, [], [], []⟩) ∧
      r.2.clock = 95 ∧
      ∃ octets acts, Wire.encodeQuery q 7 = .ok octets ∧
        contacts stammering settings (.since 0) q server l =
          acts.filterMap (Act.contact ⟨q, ⟨server, 53⟩, 7, octets⟩) ∧
        acts.countP Act.isSend ≤ 3 ∧
        Ended settings (.since 0) ⟨q, ⟨server, 53⟩, 7, octets⟩ acts r.1.outcome := by
  intro settings q server l r
  have houtcome :
      r.1.outcome.toOption = some (.message ⟨7, { response := true }, none, [], [], []⟩) := by
    decide +kernel
  have hclock : r.2.clock = 95 := by decide +kernel
  have hwritten : (Wire.encodeQuery q 7).toBool = true := by decide +kernel
  cases hencode : Wire.encodeQuery q 7 with
  | error fault =>
    rw [hencode] at hwritten
    cases hwritten
  | ok octets =>
    obtain ⟨acts, last, -, -, hcontacts, -, hsends, hended, -⟩ :=
      exchange_in_order stammering settings (.since 0) q server l (List.pairwise_singleton _ _)
        hencode
    exact ⟨houtcome, hclock, octets, acts, rfl, hcontacts, hsends, hended⟩

end Exchange

end IterativeDns
