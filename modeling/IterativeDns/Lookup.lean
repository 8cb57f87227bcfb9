import IterativeDns.Cache.Nameservers
import IterativeDns.Client

/-!
# Iterative lookup

A lookup starts at the closest delegation its cache knows and follows referrals: it asks the
servers of that delegation, keeps what they answer, and looks again which delegation is the
closest. It ends when an answer is known, when a server gives an error, or when every server
that could be asked has been asked.

* `consult` is one exchange: what a response carries is kept at once, unless its verdict is an
  error, and then none of it is.
* A *frame* resolves one question in *rounds*. A round selects servers and asks those that the
  frame has not asked before (`askServers`); the frame ends when a round selects none but such.
* `selectServers` looks up the addresses of nameservers that came without any. Every such lookup
  is a frame of its own with one unit of budget less, and `Session.attempted` keeps every
  question that has had a frame: no question gets a second one in the same lookup.
* Failures end the whole lookup, except in the lookup of a nameserver's address, where they only
  mean that this nameserver is of no use.

Servers can go on naming new servers for ever. The number of rounds of a frame is therefore
limited (`Resolver.maxRounds`), and a lookup that runs into the limit has no result, which is
different from every result it can have.

The cache is read at the instant of each reading, and while a server is asked time passes: what
was good when servers were selected may have expired when they have answered.

A session also keeps its history: which servers were selected and what each was asked and
answered.
-/

namespace IterativeDns

/-- A cache at an instant. -/
structure Snapshot where
  now : Instant
  cache : Cache

/-- What happened in a lookup. -/
inductive LookupStep where
  /-- Servers were selected for a question; `before` is when the selection began and `after` when
  it ended. -/
  | selected (question : Question) (before after : Snapshot) (servers : List Record)
  | asked (question : Question) (server : Record) (outcome : Except Failure Reply)

/-- What a lookup works on. -/
structure Session (σ : Type) where
  client : σ
  cache : Cache
  /-- The questions that have a frame or had one. -/
  attempted : List Question := []
  history : List LookupStep := []
  trace : List TraceEvent := []

/-- How lookups are made. -/
structure Resolver (σ : Type) where
  client : Client σ
  /-- Servers may be asked over version 6 addresses. -/
  useIpv6 : Bool
  /-- How many lookups of nameserver addresses may be nested. -/
  budget : Nat
  maxRounds : Nat

/-! ### Answers -/

/-- A record belongs to the answer of a question if it is owned by the name and has the type
asked for or is an alias. -/
def Record.isAnswer (q : Question) (r : Record) : Bool :=
  r.answers q || r.answers (q.withType .cname)

/-- Some records settle a question if one of them belongs to its answer; an alias settles every
type. -/
def Question.isSettledBy (q : Question) (rs : RecordSet) : Bool :=
  rs.toList.any (Record.isAnswer q)

/-- Reads what a cache knows of the answer to a question: the records asked for and aliases. -/
def Cache.answers (c : Cache) (now : Instant) (q : Question) : RecordSet × Cache :=
  let (direct, c) := c.get now q
  if q.recordType = .cname then (direct, c)
  else
    let (aliases, c) := c.get now (q.withType .cname)
    (direct.union aliases, c)

@[simp] theorem Cache.entries_answers (c : Cache) (now : Instant) (q : Question) :
    (c.answers now q).2.entries = c.entries := by
  simp only [Cache.answers]
  split <;> simp

/-! ### Responses -/

namespace Message

/-- The records of a response that are worth keeping: all but the pseudo-records of the
transport. -/
def learnable (m : Message) : List Record :=
  m.allRecords.filter fun r => r.recordType ≠ .opt

end Message

namespace Session

variable {σ : Type}

def emit (s : Session σ) (events : List TraceEvent) : Session σ :=
  { s with trace := s.trace ++ events }

def record (s : Session σ) (step : LookupStep) : Session σ :=
  { s with history := s.history ++ [step] }

/-- Keeps the records of a list in the cache. -/
def learn (s : Session σ) (rs : List Record) : Session σ :=
  { s with cache := s.cache.addAll rs }

/-- A frame for the question has been opened before. -/
def hasAttempted (s : Session σ) (q : Question) : Bool :=
  s.attempted.any (·.sameAs q)

/-- Notes that a frame for the question is opened. -/
def attempt (s : Session σ) (q : Question) : Session σ :=
  { s with attempted := s.attempted ++ [q] }

/-- Reads the known part of an answer. -/
def answers (s : Session σ) (now : Instant) (q : Question) : RecordSet × Session σ :=
  let (found, cache) := s.cache.answers now q
  (found, { s with cache })

def bestNameservers (s : Session σ) (now : Instant) (q : Question) : List Record × Session σ :=
  let (found, cache) := s.cache.bestNameservers now q
  (found, { s with cache })

def knownAddresses (s : Session σ) (now : Instant) (nameservers : List Record) (useIpv6 : Bool) :
    List Record × Session σ :=
  let (found, cache) := s.cache.knownAddresses now nameservers useIpv6
  (found.toList, { s with cache })

/-- What comes of the outcome of an exchange with a server: the records it brought, none at all
if the server was silent, or why the lookup fails. -/
def digest (s : Session σ) (server : Address) (outcome : Except Failure Reply) :
    Except Failure (Option (List Record)) × Session σ :=
  match outcome with
  | .error f => (.error f, s)
  | .ok .silence => (.ok none, s)
  | .ok (.message m) =>
    if m.responseCode.isError then
      (.error (.errorResponse m.responseCode server.text), s.emit m.events)
    else (.ok (some m.learnable), (s.emit m.events).learn m.learnable)

end Session

namespace Resolver

variable {σ : Type} (R : Resolver σ)

/-- The instant it is for a session: its client has the clock. -/
def now (s : Session σ) : Instant :=
  R.client.now s.client

/-- The cache of a session and the instant at which it is looked at. -/
def snapshot (s : Session σ) : Snapshot :=
  ⟨R.now s, s.cache⟩

@[simp] theorem now_answers (s : Session σ) (now : Instant) (q : Question) :
    R.now (s.answers now q).2 = R.now s := rfl

@[simp] theorem now_bestNameservers (s : Session σ) (now : Instant) (q : Question) :
    R.now (s.bestNameservers now q).2 = R.now s := rfl

@[simp] theorem now_knownAddresses (s : Session σ) (now : Instant) (nameservers : List Record)
    (useIpv6 : Bool) : R.now (s.knownAddresses now nameservers useIpv6).2 = R.now s := rfl

/-! ### One exchange -/

/-- Lets the client ask a server. -/
def exchange (q : Question) (server : Address) (s : Session σ) :
    Except Failure Reply × Session σ :=
  let (exchanged, client) := R.client.ask q server s.client
  (exchanged.outcome, { s with client }.emit exchanged.trace)

/-- Asks a server and keeps what its response carries. -/
def consult (q : Question) (server : Address) (s : Session σ) :
    Except Failure (Option (List Record)) × Session σ :=
  let (outcome, s) := R.exchange q server s
  s.digest server outcome

/-- `consult` for a selected server, with a step in the history. -/
def askServer (q : Question) (server : Record) (address : Address) (s : Session σ) :
    Except Failure (Option (List Record)) × Session σ :=
  let (outcome, s) := R.exchange q address s
  (s.record (.asked q server outcome)).digest address outcome

/-! ### One round -/

/-- What a frame has so far. -/
structure Frame where
  /-- The records known to belong to the answer. -/
  answers : RecordSet
  /-- The address records of the servers that have been asked. -/
  tried : RecordSet

/-- How asking the servers of a round ended. -/
inductive RoundEnd where
  | finished (result : Except Failure RecordSet)
  /-- All were asked and none had an answer. -/
  | goesOn (frame : Frame)

/-- Asks servers one after the other, passing over those already asked, until one has the answer
or fails. -/
def askServers (q : Question) : List Record → Frame → Session σ → RoundEnd × Session σ
  | [], f, s => (.goesOn f, s)
  | server :: servers, f, s =>
    if f.tried.contains server then askServers q servers f s
    else
      let f := { f with tried := f.tried.insert server }
      match server.address? with
      | none => askServers q servers f s
      | some address =>
        match R.askServer q server address s with
        | (.error e, s) => (.finished (.error e), s)
        | (.ok none, s) => askServers q servers f s
        | (.ok (some records), s) =>
          let (cached, s) := s.answers (R.now s) q
          let answers := (f.answers.insertAll (records.filter (Record.isAnswer q))).union cached
          if q.isSettledBy answers then (.finished (.ok answers), s)
          else askServers q servers { f with answers } s

/-! ### A frame -/

/-- The rounds of a frame, given how servers are selected. No result means that there would have
to be more rounds than the limit allows. -/
def rounds (select : Session σ → Option (List Record × Session σ)) (q : Question) :
    Nat → Frame → Session σ → Option (Except Failure RecordSet × Session σ)
  | 0, _, _ => none
  | limit + 1, f, s =>
    match select s with
    | none => none
    | some (servers, s) =>
      if servers.all f.tried.contains then
        -- nobody is left to ask, which is also so when there is nobody at all
        let (cached, s) := s.answers (R.now s) q
        some (.ok (f.answers.union cached), s)
      else
        match R.askServers q servers f s with
        | (.finished result, s) => some (result, s)
        | (.goesOn f, s) => rounds select q limit f s

/-- Resolves a question, given how servers are selected. -/
def frame (select : Session σ → Option (List Record × Session σ)) (q : Question)
    (s : Session σ) : Option (Except Failure RecordSet × Session σ) :=
  let (known, s) := s.answers (R.now s) q
  if q.isSettledBy known then some (.ok known, s)
  else R.rounds select q R.maxRounds ⟨known, .empty⟩ s

/-! ### Selecting servers -/

/-- Looks up the addresses of nameservers, given how a question is resolved, until one of
`nameservers` can be asked. A nameserver within the zone it serves is passed over, since only
its own zone could tell its address, and so is one whose address had a frame before. -/
def findAddresses (resolve : Question → Session σ → Option (Except Failure RecordSet × Session σ))
    (recordClass : RecordClass) (nameservers : List Record) :
    List Record → Session σ → Option (List Record × Session σ)
  | [], s => some ([], s)
  | ns :: rest, s =>
    match ns.target? with
    | none => findAddresses resolve recordClass nameservers rest s
    | some target =>
      let q := Question.ofText target .a recordClass
      if Name.isWithin target ns.name || s.hasAttempted q then
        findAddresses resolve recordClass nameservers rest s
      else
        match resolve q (s.attempt q) with
        | none => none
        | some (.error _, s) => findAddresses resolve recordClass nameservers rest s
        | some (.ok _, s) =>
          -- the lookup may have told addresses of other nameservers as well
          let (usable, s) := s.knownAddresses (R.now s) nameservers R.useIpv6
          if usable.isEmpty then findAddresses resolve recordClass nameservers rest s
          else some (usable, s)

/-- The servers that may be asked a question: those of the closest delegation whose addresses
are known. If there are none and `resolve?` is given, addresses are looked up. -/
def selectServers
    (resolve? : Option (Question → Session σ → Option (Except Failure RecordSet × Session σ)))
    (q : Question) (s : Session σ) : Option (List Record × Session σ) :=
  let before := R.snapshot s
  let (nameservers, s) := s.bestNameservers (R.now s) q
  let (usable, s) := s.knownAddresses (R.now s) nameservers R.useIpv6
  let selected? :=
    if usable.isEmpty then
      match resolve? with
      | some resolve => R.findAddresses resolve q.recordClass nameservers nameservers s
      | none => some ([], s)
    else some (usable, s)
  match selected? with
  | none => none
  | some (servers, s) => some (servers, s.record (.selected q before (R.snapshot s) servers))

/-! ### A lookup -/

/-- Resolves a question with a budget for nested lookups. -/
def resolve : (budget : Nat) → Question → Session σ →
    Option (Except Failure RecordSet × Session σ)
  | 0, q, s => R.frame (R.selectServers none q) q s
  | budget + 1, q, s => R.frame (R.selectServers (some (resolve budget)) q) q s

/-- Looks up a question: the records known to answer it, possibly none. -/
def lookup (q : Question) (s : Session σ) : Option (Except Failure RecordSet × Session σ) :=
  R.resolve R.budget q { s with attempted := [q] }

end Resolver

end IterativeDns
