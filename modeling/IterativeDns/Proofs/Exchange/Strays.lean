import IterativeDns.Proofs.Exchange.Contacts
import IterativeDns.Proofs.Wire.Prefixes

/-!
# Stray datagrams

All exchanges share one inbox, and anybody may send to it. A datagram that does not match the
query of an exchange is a stray (`Delivery.IsStray`): it is from elsewhere, carries another ID, is
not marked as a response, or is too short to tell.

**Strays leave no trace.** Two worlds that differ in strays alone (`Network.Alike`, `Link.Alike`)
show the same of every exchange: its outcome, its events, what it sends and how long it takes
(`strays_leave_no_trace`). The strays may be there from the start or come as a reaction to what is
sent, at any time and in any number, and what one exchange leaves behind the next one finds.

The reason is one equation about waiting (`await_without`): reading an inbox and reading it without
the strays ends in the same way at the same time. It holds because an inbox is sorted. A stray is
read no later than what stands behind it and no later than the deadline, so it never moves the
clock past the time at which the waiting ends anyway.
-/

namespace IterativeDns

/-! ### Deliveries left out -/

namespace Inbox

/-- The inbox without the deliveries that are told to be extra. -/
def without (extra : Delivery → Bool) (inbox : Inbox) : Inbox :=
  inbox.filter fun a => !extra a.delivery

variable {extra : Delivery → Bool} {a : Arrival} {inbox : Inbox}

theorem without_cons_of_extra (h : extra a.delivery = true) :
    without extra (a :: inbox) = inbox.without extra :=
  List.filter_cons_of_neg (by simp [h])

theorem without_cons_of_not_extra (h : extra a.delivery = false) :
    without extra (a :: inbox) = a :: inbox.without extra :=
  List.filter_cons_of_pos (by simp [h])

theorem mem_of_mem_without (h : a ∈ inbox.without extra) : a ∈ inbox :=
  (List.mem_filter.1 h).1

/-- What is earlier than all of an inbox is put in front. -/
theorem insert_of_lt (h : ∀ b ∈ inbox, a.time < b.time) : inbox.insert a = a :: inbox := by
  cases inbox with
  | nil => rfl
  | cons b bs => rw [insert, if_pos (h b List.mem_cons_self)]

theorem without_insert_of_extra (h : extra a.delivery = true) :
    (inbox.insert a).without extra = inbox.without extra := by
  induction inbox with
  | nil => exact without_cons_of_extra h
  | cons b bs ih =>
    rw [insert]
    split
    · exact without_cons_of_extra h
    · cases hb : extra b.delivery with
      | true => rw [without_cons_of_extra hb, without_cons_of_extra hb, ih]
      | false => rw [without_cons_of_not_extra hb, without_cons_of_not_extra hb, ih]

/-- In a sorted inbox an arrival comes to the same place among the others, whatever is left out. -/
theorem without_insert_of_not_extra (hsorted : inbox.IsSorted) (h : extra a.delivery = false) :
    (inbox.insert a).without extra = (inbox.without extra).insert a := by
  induction inbox with
  | nil => exact without_cons_of_not_extra h
  | cons b bs ih =>
    obtain ⟨hb, hbs⟩ := List.pairwise_cons.1 hsorted
    rw [insert]
    split
    · next hlt =>
      have hall : ∀ c ∈ without extra (b :: bs), a.time < c.time := by
        intro c hc
        rcases List.mem_cons.1 (mem_of_mem_without hc) with rfl | hc
        · exact hlt
        · exact Nat.lt_of_lt_of_le hlt (hb c hc)
      rw [without_cons_of_not_extra h, insert_of_lt hall]
    · next hle =>
      cases hextra : extra b.delivery with
      | true => rw [without_cons_of_extra hextra, without_cons_of_extra hextra, ih hbs]
      | false =>
        rw [without_cons_of_not_extra hextra, without_cons_of_not_extra hextra, ih hbs, insert,
          if_neg hle]

theorem without_insertAll (hsorted : inbox.IsSorted) (arrivals : List Arrival) :
    (inbox.insertAll arrivals).without extra =
      (inbox.without extra).insertAll (without extra arrivals) := by
  induction arrivals generalizing inbox with
  | nil => rfl
  | cons a arrivals ih =>
    have hrest := ih (hsorted.insert (a := a))
    cases h : extra a.delivery with
    | true =>
      rw [without_insert_of_extra h] at hrest
      rw [without_cons_of_extra h]
      exact hrest
    | false =>
      rw [without_cons_of_not_extra h]
      rw [without_insert_of_not_extra hsorted h] at hrest
      exact hrest

/-- Deliveries can be left out before they are dated or after. -/
theorem without_map {date : Nat × Delivery → Arrival} (hdate : ∀ d, (date d).delivery = d.2)
    (ds : List (Nat × Delivery)) :
    without extra (ds.map date) = (ds.filter fun d => !extra d.2).map date := by
  rw [without, List.filter_map]
  simp only [Function.comp_def, hdate]

end Inbox

/-! ### Strays -/

/-- The delivery is a datagram that does not match a query: it is not from the server asked, it is
shorter than four octets, or its first four octets carry another ID or no mark of a response. -/
def Delivery.IsStray (server : Endpoint) (id : UInt16) : Delivery → Prop
  | .datagram source octets => source ≠ server ∨ octets.length < 4 ∨
      ∃ header, Wire.peek octets = some header ∧ (header.1 ≠ id ∨ header.2.response = false)
  | .failure _ => False

namespace Exchange

theorem peek_eq_none_iff {octets : List UInt8} : Wire.peek octets = none ↔ octets.length < 4 := by
  match octets with
  | [] | [_] | [_, _] | [_, _, _] => simp [Wire.peek]
  | _ :: _ :: _ :: _ :: _ => simp [Wire.peek]

theorem isStray_iff {server source : Endpoint} {id : UInt16} {octets : List UInt8} :
    (Delivery.datagram source octets).IsStray server id ↔
      isReply server id source octets = false := by
  simp only [Delivery.IsStray, isReply, ← peek_eq_none_iff]
  cases Wire.peek octets with
  | none => simp
  | some header => by_cases hsource : source = server <;> by_cases hid : header.1 = id <;>
      simp [hsource, hid]

theorem judge_of_isStray {settings : ExchangeSettings} {now : Instant} {query : Query}
    {source : Endpoint} {octets : List UInt8}
    (h : (Delivery.datagram source octets).IsStray query.server query.id) :
    judge now query source (readable settings octets) = .stray := by
  rw [isStray_iff] at h
  rw [judge, isReply_readable, h, if_neg Bool.false_ne_true]

/-! ### Waiting -/

section Waiting

variable {settings : ExchangeSettings} {time : Timeline} {query : Query} {deadline : Nat}

/-- Whoever waits does not notice that the clock was late, if it was no later than everything that
could end the waiting. -/
theorem await_max {inbox : Inbox} {passed : Nat} (clock : Nat) (hdeadline : passed ≤ deadline)
    (hinbox : ∀ a ∈ inbox, passed ≤ a.time) :
    await settings time query deadline (max clock passed) inbox =
      await settings time query deadline clock inbox := by
  cases inbox with
  | nil => rw [await, await, Nat.max_assoc, Nat.max_eq_right hdeadline]
  | cons a inbox =>
    have ha := hinbox a List.mem_cons_self
    rw [await, await, Nat.max_assoc, Nat.max_assoc, Nat.max_eq_right hdeadline,
      Nat.max_eq_right ha]

theorem await_of_lt {inbox : Inbox} (clock : Nat) (h : ∀ a ∈ inbox, deadline < a.time) :
    await settings time query deadline clock inbox = (.timedOut, max clock deadline, inbox) := by
  cases inbox with
  | nil => rfl
  | cons a inbox => rw [await, if_pos (h a List.mem_cons_self)]

variable (settings time deadline) in
/-- Leaving strays out changes neither how waiting ends nor when, nor anything about what is left
in the inbox but the strays. -/
theorem await_without {extra : Delivery → Bool}
    (hextra : ∀ d, extra d = true → d.IsStray query.server query.id) {inbox : Inbox}
    (hsorted : inbox.IsSorted) (clock : Nat) :
    await settings time query deadline clock (inbox.without extra) =
      ((await settings time query deadline clock inbox).1,
        (await settings time query deadline clock inbox).2.1,
        Inbox.without extra (await settings time query deadline clock inbox).2.2) := by
  induction inbox generalizing clock with
  | nil => rfl
  | cons a inbox ih =>
    obtain ⟨ha, hinbox⟩ := List.pairwise_cons.1 hsorted
    by_cases hlate : deadline < a.time
    · have hall : ∀ b ∈ a :: inbox, deadline < b.time :=
        List.forall_mem_cons.2 ⟨hlate, fun b hb => Nat.lt_of_lt_of_le hlate (ha b hb)⟩
      rw [await_of_lt clock hall,
        await_of_lt clock fun b hb => hall b (Inbox.mem_of_mem_without hb)]
    cases hstray : extra a.delivery with
    | false =>
      -- the same arrival is read in both inboxes
      rw [Inbox.without_cons_of_not_extra hstray]
      simp only [await, if_neg hlate]
      split
      · rfl
      · split
        · exact ih hinbox _
        · rfl
        · rfl
    | true =>
      rw [Inbox.without_cons_of_extra hstray]
      have hstray := hextra _ hstray
      cases hdelivery : a.delivery with
      | failure reason =>
        rw [hdelivery] at hstray
        exact hstray.elim
      | datagram source octets =>
        rw [hdelivery] at hstray
        have hskip : await settings time query deadline clock (a :: inbox) =
            await settings time query deadline (max clock a.time) inbox := by
          rw [await, if_neg hlate]
          simp only [hdelivery, judge_of_isStray hstray]
        rw [hskip, await_max clock (Nat.le_of_not_lt hlate) ha]
        exact ih hinbox clock

theorem await_isSorted {inbox : Inbox} (hsorted : inbox.IsSorted) (clock : Nat) :
    Inbox.IsSorted (await settings time query deadline clock inbox).2.2 := by
  induction inbox generalizing clock with
  | nil => exact hsorted
  | cons a inbox ih =>
    have hinbox := (List.pairwise_cons.1 hsorted).2
    rw [await]
    split
    · exact hsorted
    · simp only
      split
      · exact hinbox
      · split
        · exact ih hinbox _
        · exact hinbox
        · exact hinbox

end Waiting

end Exchange

/-! ### Worlds that differ in extra datagrams -/

variable {σ τ : Type}

/-- Both sends failed for the same reason, or what they make arrive is the same but for extra
deliveries. -/
def SameSent (extra : Delivery → Bool) :
    Except String (List (Nat × Delivery)) → Except String (List (Nat × Delivery)) → Prop
  | .ok ds, .ok es => (ds.filter fun d => !extra d.2) = es.filter fun d => !extra d.2
  | .error reason, .error reason' => reason = reason'
  | _, _ => False

/-- Two networks do the same in states that are tied to each other, but for extra deliveries, and
their states stay tied. -/
structure Network.Alike (extra : Delivery → Bool) (tied : σ → τ → Prop) (net : Network σ)
    (net' : Network τ) : Prop where
  chooseId : ∀ x y, tied x y →
    (net.chooseId x).1 = (net'.chooseId y).1 ∧ tied (net.chooseId x).2 (net'.chooseId y).2
  send : ∀ x y, tied x y → ∀ server octets,
    SameSent extra (net.send server octets x).1 (net'.send server octets y).1 ∧
      tied (net.send server octets x).2 (net'.send server octets y).2
  converse : ∀ x y, tied x y → ∀ server octets,
    (net.converse server octets x).1 = (net'.converse server octets y).1 ∧
      tied (net.converse server octets x).2 (net'.converse server octets y).2

/-- Two links that are alike but for extra datagrams in their inboxes. -/
structure Link.Alike (extra : Delivery → Bool) (tied : σ → τ → Prop) (l : Link σ) (k : Link τ) :
    Prop where
  world : tied l.world k.world
  clock : l.clock = k.clock
  inbox : l.inbox.without extra = k.inbox.without extra
  sorted : l.inbox.IsSorted
  sorted' : k.inbox.IsSorted

variable {extra : Delivery → Bool} {tied : σ → τ → Prop} {l : Link σ} {k : Link τ}

namespace Link

theorem Alike.withWorld (h : l.Alike extra tied k) {x : σ} {y : τ} (hworld : tied x y) :
    Alike extra tied { l with world := x } { k with world := y } :=
  { h with world := hworld }

theorem Alike.deliver (h : l.Alike extra tied k) {ds es : List (Nat × Delivery)}
    (hsame : SameSent extra (.ok ds) (.ok es)) :
    (l.deliver ds).Alike extra tied (k.deliver es) where
  world := h.world
  clock := h.clock
  inbox := by
    rw [Link.deliver, Link.deliver, Inbox.without_insertAll h.sorted,
      Inbox.without_insertAll h.sorted', Inbox.without_map fun _ => rfl,
      Inbox.without_map fun _ => rfl, h.inbox, h.clock,
      show (ds.filter fun d => !extra d.2) = es.filter fun d => !extra d.2 from hsame]
  sorted := h.sorted.insertAll _
  sorted' := h.sorted'.insertAll _

end Link

namespace Exchange

/-- What an exchange is asked for. -/
structure Call where
  time : Timeline
  question : Question
  server : Address

section Runs

variable {net : Network σ} {net' : Network τ} {settings : ExchangeSettings} {time : Timeline}
  {query : Query}

variable (settings time) in
theorem listen_alike (hextra : ∀ d, extra d = true → d.IsStray query.server query.id)
    (h : l.Alike extra tied k) :
    (listen settings time query l).1 = (listen settings time query k).1 ∧
      (listen settings time query l).2.Alike extra tied (listen settings time query k).2 := by
  have hl := await_without settings time (l.clock + settings.timeout) hextra h.sorted l.clock
  have hk := await_without settings time (k.clock + settings.timeout) hextra h.sorted' k.clock
  -- without the extra deliveries both wait for the same
  rw [← h.inbox, ← h.clock, hl] at hk
  simp only [Prod.mk.injEq] at hk
  obtain ⟨hwaited, hclock, hinbox⟩ := hk
  refine ⟨?_, ⟨h.world, ?_, ?_, ?_, ?_⟩⟩
  · simpa only [listen, h.clock] using hwaited
  · simpa only [listen, h.clock] using hclock
  · simpa only [listen, h.clock] using hinbox
  · exact await_isSorted h.sorted _
  · exact await_isSorted h.sorted' _

theorem conclude_alike (hnet : net.Alike extra tied net') (m : Message)
    (h : l.Alike extra tied k) :
    (conclude net settings time query m l).1 = (conclude net' settings time query m k).1 ∧
      (conclude net settings time query m l).2.Alike extra tied
        (conclude net' settings time query m k).2 := by
  obtain ⟨hreply, hworld⟩ := hnet.converse l.world k.world h.world query.server query.octets
  unfold conclude
  split
  · refine ⟨?_, { h with world := hworld, clock := ?_ }⟩
    · simp only [overStream, hreply, h.clock]
    · simp only [overStream, hreply, h.clock]
  · exact ⟨rfl, h⟩

theorem attempt_alike (hnet : net.Alike extra tied net')
    (hextra : ∀ d, extra d = true → d.IsStray query.server query.id) (n : Nat)
    (h : l.Alike extra tied k) :
    (attempt net settings time query n l).1 = (attempt net' settings time query n k).1 ∧
      (attempt net settings time query n l).2.Alike extra tied
        (attempt net' settings time query n k).2 := by
  induction n generalizing l k with
  | zero => exact ⟨rfl, h⟩
  | succ n ih =>
    have hgoOn : ∀ waited {l : Link σ} {k : Link τ}, l.Alike extra tied k →
        (goOn net settings time query n waited l).1 = (goOn net' settings time query n waited k).1 ∧
          (goOn net settings time query n waited l).2.Alike extra tied
            (goOn net' settings time query n waited k).2 := by
      intro waited l k h
      cases waited with
      | failed reason => exact ⟨rfl, h⟩
      | timedOut => exact ih h
      | garbled => exact ih h
      | reply m => exact conclude_alike hnet m h
    obtain ⟨hsent, hworld⟩ := hnet.send l.world k.world h.world query.server query.octets
    cases hl : net.send query.server query.octets l.world with
    | mk outcome world =>
    cases hk : net'.send query.server query.octets k.world with
    | mk outcome' world' =>
    rw [hl, hk] at hsent hworld
    match outcome, outcome', hsent with
    | .error reason, .error _, rfl =>
      rw [attempt_of_send_error net settings time query hl,
        attempt_of_send_error net' settings time query hk]
      exact ⟨rfl, h.withWorld hworld⟩
    | .ok ds, .ok es, hsame =>
      have hlistened := listen_alike settings time hextra
        ((h.withWorld hworld).deliver hsame)
      cases hlistenl : listen settings time query ({ l with world }.deliver ds) with
      | mk waited heard =>
      cases hlistenk : listen settings time query ({ k with world := world' }.deliver es) with
      | mk waited' heard' =>
      rw [hlistenl, hlistenk] at hlistened
      obtain ⟨rfl, hheard⟩ := hlistened
      obtain ⟨hexchanged, hlink⟩ := hgoOn waited hheard
      rw [attempt_of_send net settings time query hl hlistenl,
        attempt_of_send net' settings time query hk hlistenk, hexchanged]
      exact ⟨rfl, hlink⟩

theorem run_alike (hnet : net.Alike extra tied net') (c : Call)
    (hextra : ∀ d, extra d = true →
      d.IsStray ⟨c.server, settings.port⟩ (net.chooseId l.world).1)
    (h : l.Alike extra tied k) :
    (run net settings c.time c.question c.server l).1 =
        (run net' settings c.time c.question c.server k).1 ∧
      (run net settings c.time c.question c.server l).2.Alike extra tied
        (run net' settings c.time c.question c.server k).2 := by
  obtain ⟨hid, hworld⟩ := hnet.chooseId l.world k.world h.world
  cases hl : net.chooseId l.world with
  | mk id world =>
  cases hk : net'.chooseId k.world with
  | mk id' world' =>
  rw [hl, hk] at hid hworld
  rw [hl] at hextra
  obtain rfl : id = id' := hid
  cases hencode : Wire.encodeQuery c.question id with
  | error fault =>
    rw [run_of_fault net settings c.time hl hencode, run_of_fault net' settings c.time hk hencode]
    exact ⟨rfl, h.withWorld hworld⟩
  | ok octets =>
    rw [run_of_octets net settings c.time hl hencode, run_of_octets net' settings c.time hk hencode]
    exact attempt_alike hnet hextra settings.attempts (h.withWorld hworld)

end Runs

end Exchange

/-! ### Floods -/

/-- The network in which every datagram that is sent makes more arrive. -/
def Network.flooded (net : Network σ)
    (flood : Endpoint → List UInt8 → List (Nat × Delivery)) : Network σ where
  chooseId := net.chooseId
  send server octets world :=
    let (outcome, world) := net.send server octets world
    (outcome.map (flood server octets ++ ·), world)
  converse := net.converse

theorem Network.flooded_alike (net : Network σ)
    {flood : Endpoint → List UInt8 → List (Nat × Delivery)}
    (hflood : ∀ server octets, ∀ d ∈ flood server octets, extra d.2 = true) :
    (net.flooded flood).Alike extra Eq net where
  chooseId _ _ h := h ▸ ⟨rfl, rfl⟩
  send x y h server octets := by
    subst h
    refine ⟨?_, rfl⟩
    simp only [Network.flooded]
    cases (net.send server octets x).1 with
    | error reason => exact rfl
    | ok ds =>
      have hnone : (flood server octets).filter (fun d => !extra d.2) = [] :=
        List.filter_eq_nil_iff.2 fun d hd => by simp [hflood server octets d hd]
      simp only [Except.map, SameSent, List.filter_append, hnone, List.nil_append]
  converse _ _ h _ _ := h ▸ ⟨rfl, rfl⟩

theorem Link.flooded_alike (hsorted : l.inbox.IsSorted) {arrivals : List Arrival}
    (hextra : ∀ a ∈ arrivals, extra a.delivery = true) :
    Alike extra Eq { l with inbox := l.inbox.insertAll arrivals } l where
  world := rfl
  clock := rfl
  inbox := by
    have hnone : Inbox.without extra arrivals = [] :=
      List.filter_eq_nil_iff.2 fun a ha => by simp [hextra a ha]
    rw [Inbox.without_insertAll hsorted, hnone]
    rfl
  sorted := hsorted.insertAll arrivals
  sorted' := hsorted

/-! ### What is sent -/

/-- A contact without what came of it: how it was made, with whom, and what was sent. -/
def Contact.sending : Contact → Transport × Endpoint × List UInt8
  | .sent server octets _ => (.udp, server, octets)
  | .conversed server octets _ => (.tcp, server, octets)

/-- States that are tied to each other, with notes of the same sendings. -/
def Network.TiedNotes (tied : σ → τ → Prop) (s : σ × List Contact) (t : τ × List Contact) : Prop :=
  tied s.1 t.1 ∧ s.2.map Contact.sending = t.2.map Contact.sending

/-- Networks that are alike have the same sendings noted. -/
theorem Network.Alike.noted {net : Network σ} {net' : Network τ} (h : net.Alike extra tied net') :
    net.noted.Alike extra (Network.TiedNotes tied) net'.noted where
  chooseId x y hxy := by
    obtain ⟨hid, hworld⟩ := h.chooseId x.1 y.1 hxy.1
    exact ⟨hid, hworld, hxy.2⟩
  send x y hxy server octets := by
    obtain ⟨hsame, hworld⟩ := h.send x.1 y.1 hxy.1 server octets
    refine ⟨hsame, hworld, ?_⟩
    simp only [Network.noted, List.map_append, hxy.2]
    rfl
  converse x y hxy server octets := by
    obtain ⟨hreply, hworld⟩ := h.converse x.1 y.1 hxy.1 server octets
    refine ⟨hreply, hworld, ?_⟩
    simp only [Network.noted, List.map_append, hxy.2]
    rfl

theorem Link.Alike.noting (h : l.Alike extra tied k) :
    (l.noting []).Alike extra (Network.TiedNotes tied) (k.noting []) :=
  { h with world := ⟨h.world, rfl⟩ }

/-! ### Sequences of exchanges -/

namespace Exchange

/-- What there is to see of an exchange. -/
structure Seen where
  /-- Its outcome and its events. -/
  exchanged : Exchanged
  sent : List (Transport × Endpoint × List UInt8)
  /-- How many milliseconds it took. -/
  elapsed : Nat

/-- Makes one exchange. -/
def see (net : Network σ) (settings : ExchangeSettings) (c : Call) (l : Link σ) : Seen × Link σ :=
  let (exchanged, after) := run net settings c.time c.question c.server l
  let sent := (contacts net settings c.time c.question c.server l).map Contact.sending
  (⟨exchanged, sent, after.clock - l.clock⟩, after)

/-- Makes one exchange after the other over the same link. -/
def seeAll (net : Network σ) (settings : ExchangeSettings) :
    List Call → Link σ → List Seen × Link σ
  | [], l => ([], l)
  | c :: calls, l =>
    let (seen, l) := see net settings c l
    let (rest, l) := seeAll net settings calls l
    (seen :: rest, l)

/-- The extra deliveries are strays to every exchange of a sequence: to its server and to the ID it
comes to choose. -/
def StrayToAll (extra : Delivery → Bool) (net : Network σ) (settings : ExchangeSettings) :
    List Call → Link σ → Prop
  | [], _ => True
  | c :: calls, l =>
    (∀ d, extra d = true → d.IsStray ⟨c.server, settings.port⟩ (net.chooseId l.world).1) ∧
      StrayToAll extra net settings calls (see net settings c l).2

theorem see_alike {net : Network σ} {net' : Network τ} (hnet : net.Alike extra tied net')
    (settings : ExchangeSettings) (c : Call)
    (hextra : ∀ d, extra d = true →
      d.IsStray ⟨c.server, settings.port⟩ (net.chooseId l.world).1)
    (h : l.Alike extra tied k) :
    (see net settings c l).1 = (see net' settings c k).1 ∧
      (see net settings c l).2.Alike extra tied (see net' settings c k).2 := by
  obtain ⟨hexchanged, hafter⟩ :=
    run_alike hnet c hextra h
  -- the notes of the two networks differ in what came of the sendings only
  obtain ⟨-, hnotes⟩ :=
    run_alike hnet.noted c hextra h.noting
  refine ⟨?_, hafter⟩
  simp only [see, hexchanged, hafter.clock, h.clock, contacts, Link.log, hnotes.world.2]

/-! ### Main result -/

/-- Two worlds that differ in strays alone show the same of every sequence of exchanges, and what is
left in their inboxes differs in strays alone. -/
theorem strays_leave_no_trace {net : Network σ} {net' : Network τ}
    (hnet : net.Alike extra tied net') (settings : ExchangeSettings) (calls : List Call)
    (hlink : l.Alike extra tied k) (hstray : StrayToAll extra net settings calls l) :
    (seeAll net settings calls l).1 = (seeAll net' settings calls k).1 ∧
      (seeAll net settings calls l).2.Alike extra tied (seeAll net' settings calls k).2 := by
  induction calls generalizing l k with
  | nil => exact ⟨rfl, hlink⟩
  | cons c calls ih =>
    obtain ⟨hc, hcalls⟩ := hstray
    obtain ⟨hseen, hafter⟩ := see_alike hnet settings c hc hlink
    obtain ⟨hrest, hleft⟩ := ih hafter hcalls
    simp only [seeAll, hseen, hrest]
    exact ⟨trivial, hleft⟩

/-- Every query is answered after 30 milliseconds. -/
def answering : Network Unit where
  chooseId _ := (7, ())
  send server _ _ := (.ok [(30, .datagram server [0, 7, 0x80, 0, 0, 0, 0, 0, 0, 0, 0, 0])], ())
  converse _ _ _ := (⟨0, .error "refused"⟩, ())

/-- Datagrams from elsewhere, with another ID, without the mark of a response, and too short. -/
def junk : List Delivery :=
  [.datagram ⟨.ofQuad 192 0 2 54, 53⟩ [0, 7, 0x80, 0, 0, 0, 0, 0, 0, 0, 0, 0],
    .datagram ⟨.ofQuad 192 0 2 53, 53⟩ [0, 8, 0x80, 0, 0, 0, 0, 0, 0, 0, 0, 0],
    .datagram ⟨.ofQuad 192 0 2 53, 53⟩ [0, 7, 0, 0],
    .datagram ⟨.ofQuad 192 0 2 53, 53⟩ [0, 7]]

/-- Junk that is there from the start, comes with every answer and is left behind after two
exchanges. -/
theorem junk_leaves_no_trace :
    let settings : ExchangeSettings := ⟨53, 50, 2, 512, true⟩
    let call : Call := ⟨.since 0, .ofText "example.com" .ns, .ofQuad 192 0 2 53⟩
    let flooded := answering.flooded fun _ _ => junk.flatMap fun d => [(30, d), (50, d)]
    let l : Link Unit := { world := () }
    let littered := { l with inbox := l.inbox.insertAll (junk.map (⟨0, ·⟩)) }
    (seeAll flooded settings [call, call] littered).1 =
        (seeAll answering settings [call, call] l).1 ∧
      (seeAll flooded settings [call, call] littered).2.inbox.map Arrival.delivery = junk := by
  intro settings call flooded l littered
  let extra : Delivery → Bool := fun d => d ∈ junk
  have hstray : ∀ d, extra d = true → d.IsStray ⟨call.server, settings.port⟩ 7 := by
    intro d hd
    have hmem : d ∈ junk := of_decide_eq_true hd
    simp only [junk, List.mem_cons, List.not_mem_nil, or_false] at hmem
    rcases hmem with rfl | rfl | rfl | rfl <;> exact isStray_iff.2 (by decide)
  have hnet : flooded.Alike extra Eq answering := by
    refine Network.flooded_alike _ ?_
    intro _ _ d hd
    obtain ⟨e, he, hd⟩ := List.mem_flatMap.1 hd
    simp only [List.mem_cons, List.not_mem_nil, or_false] at hd
    rcases hd with rfl | rfl <;> exact decide_eq_true he
  have hlink : Link.Alike extra Eq littered l := by
    refine Link.flooded_alike (l := l) List.Pairwise.nil ?_
    intro a ha
    obtain ⟨d, hd, rfl⟩ := List.mem_map.1 ha
    exact decide_eq_true hd
  refine ⟨(strays_leave_no_trace hnet settings [call, call] hlink ⟨hstray, hstray, trivial⟩).1, ?_⟩
  decide +kernel

end Exchange

end IterativeDns
