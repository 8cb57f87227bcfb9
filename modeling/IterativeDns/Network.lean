import IterativeDns.Address.Text

/-!
# The network as a client sees it

Datagrams are sent and forgotten; whatever reaches the client's socket waits in an inbox until
it is read. Streams carry one query and one reply. How the world reacts to what is sent is a
parameter, so that it may do anything: answer late, twice, from elsewhere, or not at all.

Time passes only while the client waits: for datagrams, or for the reply of a stream.
-/

namespace IterativeDns

/-- What can come out of a socket. -/
inductive Delivery where
  | datagram (source : Endpoint) (octets : List UInt8)
  | failure (reason : String)
deriving DecidableEq, Repr

/-- A delivery and the time, in milliseconds of the client's clock, from which it can be read. -/
structure Arrival where
  time : Nat
  delivery : Delivery
deriving DecidableEq, Repr

/-- Deliveries in the order in which they will be read: by time, and by order of arrival among
those of one time. -/
abbrev Inbox := List Arrival

namespace Inbox

/-- Puts an arrival behind all that are not later. -/
def insert (a : Arrival) : Inbox → Inbox
  | [] => [a]
  | b :: bs => if a.time < b.time then a :: b :: bs else b :: insert a bs

/-- Puts arrivals into the inbox one after the other. -/
def insertAll (inbox : Inbox) (arrivals : List Arrival) : Inbox :=
  arrivals.foldl (fun inbox a => insert a inbox) inbox

theorem mem_insert {a b : Arrival} {inbox : Inbox} :
    b ∈ insert a inbox ↔ b = a ∨ b ∈ inbox := by
  induction inbox with
  | nil => simp [insert]
  | cons c inbox ih =>
    rw [insert]
    split
    · exact List.mem_cons
    · rw [List.mem_cons, ih, List.mem_cons]
      exact or_left_comm

theorem mem_insertAll {b : Arrival} {inbox : Inbox} {arrivals : List Arrival} :
    b ∈ insertAll inbox arrivals ↔ b ∈ inbox ∨ b ∈ arrivals := by
  induction arrivals generalizing inbox with
  | nil => simp [insertAll]
  | cons a arrivals ih =>
    rw [insertAll, List.foldl_cons, ← insertAll, ih, mem_insert, List.mem_cons,
      or_comm (a := b = a), or_assoc]

theorem perm_insert (a : Arrival) (inbox : Inbox) : (inbox.insert a).Perm (a :: inbox) := by
  induction inbox with
  | nil => exact List.Perm.refl _
  | cons b inbox ih =>
    rw [insert]
    split
    · exact List.Perm.refl _
    · exact (ih.cons b).trans (List.Perm.swap a b inbox)

theorem perm_insertAll (inbox : Inbox) (arrivals : List Arrival) :
    (inbox.insertAll arrivals).Perm (inbox ++ arrivals) := by
  induction arrivals generalizing inbox with
  | nil => rw [List.append_nil]; exact List.Perm.refl _
  | cons a arrivals ih =>
    have hmiddle : (a :: inbox ++ arrivals).Perm (inbox ++ a :: arrivals) :=
      List.perm_middle.symm
    exact ((ih _).trans ((perm_insert a inbox).append_right arrivals)).trans hmiddle

/-- Nothing can be read earlier than what stands before it. -/
def IsSorted (inbox : Inbox) : Prop :=
  inbox.Pairwise fun a b => a.time ≤ b.time

theorem IsSorted.insert {a : Arrival} {inbox : Inbox} (h : inbox.IsSorted) :
    (inbox.insert a).IsSorted := by
  induction inbox with
  | nil => exact List.pairwise_singleton _ a
  | cons b bs ih =>
    obtain ⟨hb, hbs⟩ := List.pairwise_cons.1 h
    rw [Inbox.insert]
    split
    · next hlt =>
      refine List.pairwise_cons.2 ⟨List.forall_mem_cons.2 ⟨Nat.le_of_lt hlt, ?_⟩, h⟩
      exact fun c hc => Nat.le_trans (Nat.le_of_lt hlt) (hb c hc)
    · next hle =>
      refine List.pairwise_cons.2 ⟨?_, ih hbs⟩
      intro c hc
      rcases mem_insert.1 hc with rfl | hc
      · exact Nat.le_of_not_lt hle
      · exact hb c hc

theorem IsSorted.insertAll {inbox : Inbox} (h : inbox.IsSorted) (arrivals : List Arrival) :
    (inbox.insertAll arrivals).IsSorted := by
  induction arrivals generalizing inbox with
  | nil => exact h
  | cons a arrivals ih => exact ih h.insert

/-- If the first arrival is late, all are. -/
theorem IsSorted.lt_of_head {deadline : Nat} {inbox : Inbox} (h : inbox.IsSorted)
    (hlate : ∀ a ∈ inbox.head?, deadline < a.time) : ∀ a ∈ inbox, deadline < a.time := by
  cases inbox with
  | nil => nofun
  | cons b inbox =>
    have hb : deadline < b.time := hlate b rfl
    refine List.forall_mem_cons.2 ⟨hb, ?_⟩
    exact fun a ha => Nat.lt_of_lt_of_le hb ((List.pairwise_cons.1 h).1 a ha)

end Inbox

/-- What comes of a query over a stream. -/
structure Conversation where
  /-- How many milliseconds it takes. -/
  elapsed : Nat
  /-- The reply, or the reason why there is none. -/
  reply : Except String (List UInt8)

/-- How the world reacts to what a client does. -/
structure Network (σ : Type) where
  chooseId : σ → UInt16 × σ
  /-- Sends a datagram: the reason why it cannot be sent, or what it makes arrive and after how
  many milliseconds. -/
  send : Endpoint → List UInt8 → σ → Except String (List (Nat × Delivery)) × σ
  /-- Sends a query over a stream and waits for the reply. -/
  converse : Endpoint → List UInt8 → σ → Conversation × σ

/-- A client's connection to the network. -/
structure Link (σ : Type) where
  world : σ
  /-- Milliseconds since the connection was made. -/
  clock : Nat := 0
  inbox : Inbox := []

/-- Deliveries put into the inbox, each at its delay from now. -/
def Link.deliver {σ : Type} (l : Link σ) (deliveries : List (Nat × Delivery)) : Link σ :=
  { l with
    inbox := l.inbox.insertAll (deliveries.map fun (delay, d) => ⟨l.clock + delay, d⟩) }

end IterativeDns
