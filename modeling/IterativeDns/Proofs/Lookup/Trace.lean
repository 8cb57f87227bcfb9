import IterativeDns.Proofs.Exchange.Accounts
import IterativeDns.Proofs.Lookup.OpenFrames

/-!
# The trace of a lookup over a network

The client and the resolver tell their events into one trace. Wherever a lookup stands, what has
been told is a row of accounts, one after the other and each complete: one for every step of the
history that asked a question which can be written, in the order of these steps, and about this
question, this server and this outcome (`trace_of_lookup`).

A step of a lookup tells nothing, or it is an exchange and tells one account (`Step.traces`);
what is told in a run is put together from its steps.
-/

namespace IterativeDns

/-! ### Accounts of steps -/

/-- The step asked a server a question that can be written. -/
def LookupStep.sends : LookupStep → Bool
  | selected .. => false
  | asked q _ _ => q.IsWritable

namespace Exchange.Account

variable {settings : ExchangeSettings}

/-- The account is about the exchange of a step. -/
def Tells (A : Account settings) (step : LookupStep) : Prop :=
  ∃ server address, server.address? = some address ∧ A.server = ⟨address, settings.port⟩ ∧
    step = .asked A.question server A.outcome

/-- What the resolver tells of a response are the events of its message. -/
theorem responseEvents_of_message {A : Account settings} {m : Message}
    (h : A.outcome = .ok (.message m)) : A.responseEvents = m.events := by
  have hid := A.id_of_outcome m h
  simp only [responseEvents, h, responseTold, Message.events, Message.headerEvent, hid,
    ResponseCode.isError, Section.all, List.flatMap_cons, List.flatMap_nil, List.append_nil]
  by_cases hcode : m.responseCode = .noError
  · simp [hcode, sectionTold, Message.sectionEvents, Message.records]
  · simp [hcode]

end Exchange.Account

open Exchange (Account)

/-- The events are accounts of the exchanges among some steps, in their order. -/
def LookupStep.ToldBy (settings : ExchangeSettings) (steps : List LookupStep)
    (events : List TraceEvent) : Prop :=
  ∃ accounts : List (Account settings), events = accounts.flatMap Account.events ∧
    List.Forall₂ Account.Tells accounts (steps.filter sends)

namespace LookupStep

variable {settings : ExchangeSettings}

theorem ToldBy.silent {steps : List LookupStep} (h : ∀ step ∈ steps, step.sends = false) :
    ToldBy settings steps [] := by
  have hnone : steps.filter sends = [] := by
    rw [List.filter_eq_nil_iff]
    intro step hstep
    rw [h step hstep]
    exact Bool.false_ne_true
  exact ⟨[], rfl, hnone ▸ .nil⟩

theorem ToldBy.append {steps later : List LookupStep} {events more : List TraceEvent}
    (h : ToldBy settings steps events) (hlater : ToldBy settings later more) :
    ToldBy settings (steps ++ later) (events ++ more) := by
  obtain ⟨accounts, rfl, htells⟩ := h
  obtain ⟨laterAccounts, rfl, hlater⟩ := hlater
  refine ⟨accounts ++ laterAccounts, List.flatMap_append.symm, ?_⟩
  rw [List.filter_append]
  exact List.rel_append htells hlater

end LookupStep

namespace Session

variable {σ : Type} {settings : ExchangeSettings} {s t u : Session σ}

/-- What a session has done and told from one state to another. -/
structure Traces (settings : ExchangeSettings) (s : Session σ) (steps : List LookupStep)
    (events : List TraceEvent) (t : Session σ) : Prop where
  history : t.history = s.history ++ steps
  trace : t.trace = s.trace ++ events
  told : LookupStep.ToldBy settings steps events

/-- Nothing is told where nobody is asked. -/
theorem Traces.silent {steps : List LookupStep} (hhistory : t.history = s.history ++ steps)
    (hsteps : ∀ step ∈ steps, step.sends = false) (htrace : t.trace = s.trace) :
    Traces settings s steps [] t :=
  ⟨hhistory, htrace.trans (List.append_nil _).symm, .silent hsteps⟩

theorem Traces.quiet (hhistory : t.history = s.history) (htrace : t.trace = s.trace) :
    Traces settings s [] [] t :=
  .silent (hhistory.trans (List.append_nil _).symm) (List.forall_mem_nil _) htrace

theorem Traces.select (hhistory : t.history = s.history) (htrace : t.trace = s.trace)
    (q : Question) (before after : Snapshot) (servers : List Record) :
    Traces settings s [.selected q before after servers] []
      (t.record (.selected q before after servers)) := by
  refine .silent (hhistory ▸ rfl) ?_ htrace
  intro step hstep
  rw [List.mem_singleton.1 hstep]
  rfl

theorem Traces.trans {steps later : List LookupStep} {events more : List TraceEvent}
    (h : Traces settings s steps events t) (h' : Traces settings t later more u) :
    Traces settings s (steps ++ later) (events ++ more) u where
  history := by rw [h'.history, h.history, List.append_assoc]
  trace := by rw [h'.trace, h.trace, List.append_assoc]
  told := h.told.append h'.told

/-- What comes of an outcome is told by the events of the message, if it is one. -/
theorem trace_digest (s : Session σ) (address : Address) (outcome : Except Failure Reply) :
    (s.digest address outcome).2.history = s.history ∧
      (s.digest address outcome).2.trace = s.trace ++
        match outcome with
        | .ok (.message m) => m.events
        | _ => [] := by
  match outcome with
  | .error _ => exact ⟨rfl, (List.append_nil _).symm⟩
  | .ok .silence => exact ⟨rfl, (List.append_nil _).symm⟩
  | .ok (.message m) =>
    simp only [digest]
    split <;> exact ⟨rfl, rfl⟩

end Session

/-! ### Steps of a lookup -/

namespace Resolver

open Session (Traces)

variable {σ : Type} {R : Resolver (Link σ)} {net : Network σ} {settings : ExchangeSettings}
  {time : Timeline}

/-- One exchange of a lookup tells one account, or nothing if its question cannot be written. -/
theorem exists_traces_askServer (hclient : R.client = Exchange.client net settings time)
    (hattempts : 1 ≤ settings.attempts) (q : Question) {server : Record} {address : Address}
    (haddress : server.address? = some address) (s : Session (Link σ)) :
    ∃ steps events, Traces settings s steps events (R.askServer q server address s).2 := by
  have hask : R.client.ask q address s.client =
      Exchange.run net settings time q address s.client := by rw [hclient]; rfl
  obtain ⟨hhistory, htrace⟩ := ((R.exchange q address s).2.record
    (R.stepOf q server address s)).trace_digest address (R.client.ask q address s.client).1.outcome
  rw [← askServer_eq] at hhistory htrace
  simp only [exchange, stepOf, Session.record, Session.emit, hask] at hhistory htrace
  refine ⟨_, _, hhistory, htrace.trans (List.append_assoc ..), ?_⟩
  by_cases hq : q.IsWritable
  · obtain ⟨A, rfl, hserver, hrun⟩ :=
      Exchange.exists_account_of_run hattempts net time hq address s.client
    have htells : A.Tells (.asked A.question server A.outcome) :=
      ⟨server, address, haddress, hserver, rfl⟩
    refine ⟨[A], ?_, ?_⟩
    · rw [List.flatMap_singleton, Account.events, hrun]
      congr 1
      cases houtcome : A.outcome with
      | error _ => simp [Account.responseEvents, houtcome]
      | ok reply =>
        cases reply with
        | silence => simp [Account.responseEvents, houtcome]
        | message m => exact (Account.responseEvents_of_message houtcome).symm
    · rw [hrun, List.filter_singleton, LookupStep.sends, decide_eq_true hq]
      exact .cons htells .nil
  · obtain ⟨failure, hrun⟩ := Exchange.run_of_not_isWritable net time hq address s.client
    rw [hrun]
    refine .silent ?_
    intro step hstep
    rw [List.mem_singleton.1 hstep]
    exact decide_eq_false hq

/-- Taking up a server is at most one exchange, after which the cache may be read. -/
theorem askServers_singleton_session {σ : Type} {R : Resolver σ} {q : Question} {server : Record}
    {f : Frame} {s t : Session σ} {ending : RoundEnd}
    (h : R.askServers q [server] f s = (ending, t)) :
    t = s ∨ ∃ address c, server.address? = some address ∧
      t = { (R.askServer q server address s).2 with cache := c } := by
  cases haddress : server.address? with
  | none =>
    rw [askServers_of_address?_eq_none haddress] at h
    cases h
    exact .inl rfl
  | some address =>
    cases htried : f.tried.contains server with
    | true =>
      rw [askServers_of_tried htried] at h
      cases h
      exact .inl rfl
    | false =>
      rw [askServers_of_untried htried haddress] at h
      refine .inr ⟨address, t.cache, rfl, ?_⟩
      rcases (afterAsking_eq h).1 with rfl | rfl <;> rfl

theorem exists_traces_askServers (hclient : R.client = Exchange.client net settings time)
    (hattempts : 1 ≤ settings.attempts) {q : Question} {server : Record} {f : Frame}
    {s t : Session (Link σ)} {ending : RoundEnd}
    (h : R.askServers q [server] f s = (ending, t)) :
    ∃ steps events, Traces settings s steps events t := by
  rcases askServers_singleton_session h with rfl | ⟨address, c, haddress, rfl⟩
  · exact ⟨[], [], .quiet rfl rfl⟩
  · obtain ⟨steps, events, htraces⟩ :=
      exists_traces_askServer hclient hattempts q haddress s
    exact ⟨steps, events, htraces.history, htraces.trace, htraces.told⟩

theorem readServers_quiet {σ : Type} {R : Resolver σ} {q : Question} {s t : Session σ}
    {nameservers servers : List Record}
    (h : R.readServers q s = (nameservers, servers, t)) :
    t.history = s.history ∧ t.trace = s.trace := by
  cases h
  exact ⟨rfl, rfl⟩

theorem knownAddresses_quiet {σ : Type} {R : Resolver σ} {s t : Session σ}
    {nameservers servers : List Record}
    (h : s.knownAddresses (R.now s) nameservers R.useIpv6 = (servers, t)) :
    t.history = s.history ∧ t.trace = s.trace := by
  cases h
  exact ⟨rfl, rfl⟩

/-- A step of a lookup tells nothing, or it is an exchange. -/
theorem Step.traces (hclient : R.client = Exchange.client net settings time)
    (hattempts : 1 ≤ settings.attempts) {a b : Position (Link σ)} (h : R.Step a b) :
    ∃ steps events, Traces settings a.session steps events b.session := by
  cases h with
  | ask hask => exact exists_traces_askServers hclient hattempts hask
  | finish hask => exact exists_traces_askServers hclient hattempts hask
  | select hread _ =>
    obtain ⟨hhistory, htrace⟩ := readServers_quiet hread
    exact ⟨_, [], .select hhistory htrace _ _ _ _⟩
  | giveUp _ => exact ⟨_, [], .select rfl rfl _ _ _ _⟩
  | found hread _ =>
    obtain ⟨hhistory, htrace⟩ := knownAddresses_quiet hread
    exact ⟨_, [], .select hhistory htrace _ _ _ _⟩
  | seek hread =>
    obtain ⟨hhistory, htrace⟩ := readServers_quiet hread
    exact ⟨[], [], .quiet hhistory htrace⟩
  | useless hread =>
    obtain ⟨hhistory, htrace⟩ := knownAddresses_quiet hread
    exact ⟨[], [], .quiet hhistory htrace⟩
  | known _ | unknown _ | skip _ _ | pass _ _ _ | lookUp _ _ _ | failed | exhausted _ | round _ =>
    exact ⟨[], [], .quiet rfl rfl⟩

/-- What is told in a run is what its steps tell. -/
theorem Run.traces (hclient : R.client = Exchange.client net settings time)
    (hattempts : 1 ≤ settings.attempts) {a b : Position (Link σ)} (h : R.Run a b) :
    ∃ steps events, Traces settings a.session steps events b.session := by
  induction h with
  | refl => exact ⟨[], [], .quiet rfl rfl⟩
  | tail _ hstep ih =>
    obtain ⟨steps, events, hsofar⟩ := ih
    obtain ⟨later, more, hlater⟩ := hstep.traces hclient hattempts
    exact ⟨steps ++ later, events ++ more, hsofar.trans hlater⟩

/-- Between two states of a lookup, everything that has been told is accounts of the calls of the
client whose questions can be written. -/
def Narrates (R : Resolver σ) (settings : ExchangeSettings) (s t : Session σ) : Prop :=
  ∃ steps, ∃ accounts : List (Account settings),
    t.history = s.history ++ steps ∧ R.client.Serves s.client steps t.client ∧
      t.trace = s.trace ++ accounts.flatMap Account.events ∧
      List.Forall₂ Account.Tells accounts (steps.filter LookupStep.sends)

/-! ### A lost datagram and a truncated reply -/

namespace Hesitant

/-- The first datagram is lost, the reply to the second one is truncated, and a stream gives one
answer and the pseudo-record of the transport. -/
def network : Network Nat where
  chooseId sent := (7, sent)
  send server _ sent :=
    (.ok (if sent = 0 then [] else
      [(5, .datagram server [0, 7, 0x82, 0, 0, 0, 0, 0, 0, 0, 0, 0])]), sent + 1)
  converse _ _ sent :=
    (⟨20, .ok [0, 7, 0x84, 0, 0, 0, 0, 1, 0, 0, 0, 1,
      1, 113, 1, 122, 0, 0, 1, 0, 1, 0, 0, 1, 44, 0, 4, 10, 0, 0, 9,
      0, 0, 41, 0, 1, 0, 0, 0, 0, 0, 0]⟩, sent)

def threeAttempts : ExchangeSettings :=
  ⟨53, 1000, 3, 512, true⟩

def resolver : Resolver (Link Nat) :=
  ⟨Exchange.client network threeAttempts (.since 0), false, 1, 2⟩

def start : Session (Link Nat) where
  client := { world := 0 }
  cache := ({} : Cache).addAll [.permanent ⟨"z", .ns, .«in»⟩ (.name "m.u"),
    .permanent ⟨"m.u", .a, .«in»⟩ (.address (.ofQuad 10 0 0 1))]

/-- The events of looking up the address of `q.z`. The first attempt takes a second. -/
def events : List TraceEvent :=
  let q : Question := ⟨"q.z", .a, .«in»⟩
  let server : Endpoint := ⟨.ofQuad 10 0 0 1, 53⟩
  [.querySent .udp q server 7, .querySent .udp q server 7,
    .responseReceived 7 false true .noError, .querySent .tcp q server 7,
    .responseReceived 7 true false .noError,
    .sectionStarted .answer 1,
    .recordDecoded .answer (.learned 1025 q 300 (.address (.ofQuad 10 0 0 9))),
    .sectionStarted .authority 0,
    .sectionStarted .additional 1,
    .recordDecoded .additional (.learned 1025 ⟨"", .opt, .«in»⟩ 0 (.octets ""))]

end Hesitant

/-! ### Main result -/

/-- Wherever a lookup stands, and when it has ended, what the client and the resolver have told is
one account after the other, one for every call of the client whose question can be written. -/
theorem trace_of_lookup (hclient : R.client = Exchange.client net settings time)
    (hattempts : 1 ≤ settings.attempts) (q : Question) (s : Session (Link σ)) :
    (∀ a, R.Run (R.start q s) a → R.Narrates settings s a.session) ∧
      ∀ result t, R.lookup q s = some (result, t) → R.Narrates settings s t := by
  have hrun : ∀ a, R.Run (R.start q s) a → R.Narrates settings s a.session := by
    intro a ha
    obtain ⟨steps, events, hhistory, htrace, accounts, rfl, htells⟩ := ha.traces hclient hattempts
    obtain ⟨steps', hfollows⟩ := ha.follows
    -- both accounts of the run are about the same steps
    obtain rfl := List.append_cancel_left (hhistory.symm.trans hfollows.history)
    exact ⟨steps, accounts, hhistory, hfollows.served, htrace, htells⟩
  exact ⟨hrun, fun result t h => hrun _ (run_of_lookup h)⟩

/-- A datagram is lost, a stream is used, and every event has its place in one account. -/
theorem Hesitant.lookup_traced :
    ∃ result t, resolver.lookup ⟨"q.z", .a, .«in»⟩ start = some (result, t) ∧
      t.trace = events ∧ resolver.Narrates threeAttempts start t := by
  have htrace : (resolver.lookup ⟨"q.z", .a, .«in»⟩ start).map (fun r => r.2.trace) =
      some events := by
    decide +kernel
  obtain ⟨⟨result, t⟩, hlookup, htrace⟩ := Option.map_eq_some_iff.1 htrace
  have hattempts : 1 ≤ threeAttempts.attempts := by decide
  exact ⟨result, t, hlookup, htrace,
    (trace_of_lookup rfl hattempts ⟨"q.z", .a, .«in»⟩ start).2 result t hlookup⟩

end Resolver

end IterativeDns
