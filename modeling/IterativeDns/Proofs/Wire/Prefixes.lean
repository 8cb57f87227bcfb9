import IterativeDns.Exchange
import IterativeDns.Proofs.Wire.Decoded

/-!
# Messages cut short

A datagram that is longer than the buffer it is read into loses its end. This module says that no
message is then taken for another one: **a message that has been cut is refused, or it is read as
if it had not been cut** (`cut_is_refused_or_read_as_whole`).

The reason is that nothing is ever read by looking at where the message ends, except to refuse it.
A reader is `Stable` if it reads from every longer message what it reads from a message. Stability
is kept by doing one thing after another (`Stable.bind`), so that the readers are stable because
their fields are. Names alone may be anywhere in the message; for them the induction goes along the
labels and pointers that were followed (`walk_append`).
-/

namespace IterativeDns

namespace Wire

/-! ### Stable readers -/

/-- What is read from a message is read from every message that goes on longer. -/
def Stable {α : Type} (read : List UInt8 → Except Fault α) : Prop :=
  ∀ message more result, read message = .ok result → read (message ++ more) = .ok result

namespace Stable

variable {α β : Type}

theorem ofPure (a : α) : Stable fun _ => pure a :=
  fun _ _ _ h => h

theorem bind {read : List UInt8 → Except Fault α} {next : α → List UInt8 → Except Fault β}
    (hread : Stable read) (hnext : ∀ a, Stable (next a)) :
    Stable fun message => read message >>= fun a => next a message := by
  intro message more result h
  obtain ⟨a, ha, hb⟩ := bind_eq_ok.1 h
  exact bind_eq_ok.2 ⟨a, hread message more a ha, hnext a message more result hb⟩

/-- A condition that does not look at the message. -/
theorem throwIf {condition : Prop} [Decidable condition] (fault : Fault)
    {read : List UInt8 → Except Fault α} (hread : Stable read) :
    Stable fun message => if condition then throw fault else read message := by
  intro message more result h
  dsimp only at h ⊢
  by_cases hc : condition
  · rw [if_pos hc] at h
    cases h
  · rw [if_neg hc] at h ⊢
    exact hread message more result h

/-- The message is refused if it is too short, which a longer one is even less. -/
theorem throwIfShorter (length : Nat) (fault : List UInt8 → Fault)
    {read : List UInt8 → Except Fault α} (hread : Stable read) :
    Stable fun message =>
      if message.length < length then throw (fault message) else read message := by
  intro message more result h
  dsimp only at h ⊢
  by_cases hshort : message.length < length
  · rw [if_pos hshort] at h
    cases h
  · rw [if_neg hshort] at h
    have hlonger : ¬(message ++ more).length < length := by
      rw [List.length_append]
      omega
    rw [if_neg hlonger]
    exact hread message more result h

end Stable

/-! ### Fields -/

theorem getElem?_append_of_eq_some {message more : List UInt8} {position : Nat} {octet : UInt8}
    (h : message[position]? = some octet) : (message ++ more)[position]? = some octet := by
  obtain ⟨hlt, -⟩ := List.getElem?_eq_some_iff.1 h
  rwa [List.getElem?_append_left hlt]

/-- Octets that are all there are the same ones in a longer message. -/
theorem take_drop_append {message more : List UInt8} {length position : Nat}
    (h : position + length ≤ message.length) :
    ((message ++ more).drop position).take length = (message.drop position).take length := by
  rw [List.drop_append_of_le_length (Nat.le_of_add_right_le h),
    List.take_append_of_le_length (by rw [List.length_drop]; omega)]

theorem stable_take (length position : Nat) :
    Stable fun message => take message length position := by
  intro message more result h
  dsimp only [take] at h ⊢
  split at h
  · cases h
  · next hfit =>
    have hfit' : position + length ≤ message.length := Nat.le_of_not_lt hfit
    rw [if_neg (by rw [List.length_append]; omega), take_drop_append hfit']
    exact h

theorem stable_takeWord16 (position : Nat) : Stable fun message => takeWord16 message position := by
  intro message more result h
  obtain ⟨w, next⟩ := result
  obtain ⟨a, b, rest, hdrop, hw, hnext⟩ := takeWord16_eq_ok h
  have hle : position ≤ message.length := by
    have := congrArg List.length hdrop
    rw [List.length_drop, List.length_cons] at this
    omega
  simp only [takeWord16]
  rw [List.drop_append_of_le_length hle, hdrop]
  exact congrArg Except.ok (Prod.ext hw.symm hnext.symm)

theorem stable_takeWord32 (position : Nat) : Stable fun message => takeWord32 message position := by
  intro message more result h
  dsimp only [takeWord32] at h ⊢
  split at h
  · next a b c d rest hdrop =>
    have hle : position ≤ message.length := by
      have := congrArg List.length hdrop
      rw [List.length_drop, List.length_cons] at this
      omega
    rw [List.drop_append_of_le_length hle, hdrop]
    exact h
  · cases h

/-! ### Names -/

/-- Whichever labels and pointers a name has, following them never leaves the message. -/
theorem walk_append {message : List UInt8} (more : List UInt8)
    {offset start used position next : Nat} {labels : List String}
    (h : walk message offset start used position = .ok (labels, next)) :
    walk (message ++ more) offset start used position = .ok (labels, next) := by
  rcases walk_cases h with ⟨hoctet, rfl, rfl⟩ |
    ⟨octets, text, rest, hoctet, hpos, hle, htake, hfit, htext, rfl, hrest⟩ |
    ⟨octet, high, low, past, hoctet, hkind, hlow, hback, hwalk, rfl⟩
  · exact walk_root (getElem?_append_of_eq_some hoctet)
  · have hinside : position + 1 + octets.length ≤ message.length := by
      have := congrArg List.length htake
      rw [List.length_take, List.length_drop] at this
      omega
    have htake' : ((message ++ more).drop (position + 1)).take octets.length = octets := by
      rw [take_drop_append hinside, htake]
    rw [walk_label (getElem?_append_of_eq_some hoctet) hpos hle htake' hfit htext,
      walk_append more hrest]
    rfl
  · rw [walk_pointer (getElem?_append_of_eq_some hoctet) hkind (getElem?_append_of_eq_some hlow)
      hback, walk_append more hwalk]
    rfl
termination_by (start, labels.length)

theorem stable_decodeName (offset : Nat) : Stable fun message => decodeName message offset := by
  have hwalk : Stable fun message => walk message offset offset 1 offset :=
    fun _ more _ h => walk_append more h
  refine hwalk.bind ?_
  intro result
  exact .ofPure _

/-! ### Questions and records -/

theorem stable_takeQuestion (position : Nat) :
    Stable fun message => takeQuestion message position := by
  refine (stable_decodeName position).bind ?_
  intro ⟨name, position⟩
  refine (stable_takeWord16 position).bind ?_
  intro ⟨recordType, position⟩
  refine (stable_takeWord16 position).bind ?_
  intro ⟨recordClass, position⟩
  exact .ofPure _

theorem stable_decodeData (q : Question) (position : Nat) (data : List UInt8) :
    Stable fun message => decodeData message q position data := by
  unfold decodeData
  cases q.recordType with
  | ns | cname | mx =>
    dsimp only
    refine .throwIf _ ((stable_decodeName _).bind ?_)
    intro ⟨target, next⟩
    exact .throwIf _ (.ofPure _)
  | _ =>
    -- the message plays no part
    exact fun _ _ _ h => h

theorem stable_takeRecord (now : Instant) (position : Nat) :
    Stable fun message => takeRecord now message position := by
  refine (stable_takeQuestion position).bind ?_
  intro ⟨q, position⟩
  refine (stable_takeWord32 position).bind ?_
  intro ⟨ttl, position⟩
  refine (stable_takeWord16 position).bind ?_
  intro ⟨length, position⟩
  refine (stable_take length.toNat position).bind ?_
  intro ⟨octets, next⟩
  refine (stable_decodeData q position octets).bind ?_
  intro data
  exact .ofPure _

theorem stable_takeMany {α : Type} {takeOne : List UInt8 → Nat → Except Fault (α × Nat)}
    (hone : ∀ position, Stable fun message => takeOne message position) (count position : Nat) :
    Stable fun message => takeMany (takeOne message) count position := by
  induction count generalizing position with
  | zero => exact .ofPure _
  | succ count ih =>
    refine (hone position).bind ?_
    intro ⟨x, position⟩
    refine (ih position).bind ?_
    intro ⟨xs, position⟩
    exact .ofPure _

/-! ### Messages -/

theorem stable_decode (now : Instant) : Stable (decode now) := by
  refine .throwIfShorter headerSize _ ?_
  refine (stable_takeWord16 0).bind ?_
  intro ⟨id, position⟩
  refine (stable_takeWord16 position).bind ?_
  intro ⟨flags, position⟩
  refine (stable_takeWord16 position).bind ?_
  intro ⟨questionCount, position⟩
  refine (stable_takeWord16 position).bind ?_
  intro ⟨answerCount, position⟩
  refine (stable_takeWord16 position).bind ?_
  intro ⟨authorityCount, position⟩
  refine (stable_takeWord16 position).bind ?_
  intro ⟨additionalCount, position⟩
  -- the counts are held against the length, and a longer message can only back them better
  refine .throwIfShorter _ _ ?_
  refine (stable_takeMany stable_takeQuestion _ position).bind ?_
  intro ⟨questions, position⟩
  refine (stable_takeMany (stable_takeRecord now) _ position).bind ?_
  intro ⟨answers, position⟩
  refine (stable_takeMany (stable_takeRecord now) _ position).bind ?_
  intro ⟨authorities, position⟩
  refine (stable_takeMany (stable_takeRecord now) _ position).bind ?_
  intro ⟨additionals, position⟩
  exact .ofPure _

/-- A message that has been cut is refused, or it is read as if it had not been cut. -/
theorem decode_take (now : Instant) (message : List UInt8) (length : Nat) :
    (∃ fault, decode now (message.take length) = .error fault) ∨
      decode now (message.take length) = decode now message := by
  cases h : decode now (message.take length) with
  | error fault => exact .inl ⟨fault, rfl⟩
  | ok m =>
    have hwhole := stable_decode now _ (message.drop length) m h
    rw [List.take_append_drop] at hwhole
    exact .inr hwhole.symm

/-- The ID and the flags are found wherever the first four octets are. -/
theorem peek_take {message : List UInt8} {length : Nat} (h : 4 ≤ length) :
    peek (message.take length) = peek message := by
  obtain ⟨rest, rfl⟩ := Nat.exists_eq_add_of_le' h
  match message with
  | [] | [_] | [_, _] | [_, _, _] => rfl
  | _ :: _ :: _ :: _ :: _ => rfl

end Wire

/-! ### Replies in a buffer -/

namespace Exchange

/-- Whether a datagram is a reply does not depend on how much of it is read. -/
theorem isReply_readable (settings : ExchangeSettings) (server : Endpoint) (id : UInt16)
    (source : Endpoint) (octets : List UInt8) :
    isReply server id source (readable settings octets) = isReply server id source octets := by
  have hfour : 4 ≤ max settings.bufferSize Wire.headerSize :=
    Nat.le_trans (by decide) (Nat.le_max_right _ _)
  rw [isReply, isReply, readable, Wire.peek_take hfour]

/-! ### Main result -/

/-- Octets behind a message change nothing about what it is read as; a message cut at any length is
refused or read as the whole one is; and so is a reply that is cut to the buffer of the client: it
is found to make no sense, or it is judged as all of it would be. -/
theorem cut_is_refused_or_read_as_whole (now : Instant) :
    (∀ message more m, Wire.decode now message = .ok m →
      Wire.decode now (message ++ more) = .ok m) ∧
    (∀ message length, (∃ fault, Wire.decode now (message.take length) = .error fault) ∨
      Wire.decode now (message.take length) = Wire.decode now message) ∧
    ∀ settings query source octets,
      judge now query source (readable settings octets) = .garbled ∨
        judge now query source (readable settings octets) = judge now query source octets := by
  refine ⟨Wire.stable_decode now, Wire.decode_take now, ?_⟩
  intro settings query source octets
  simp only [judge, isReply_readable]
  by_cases hreply : isReply query.server query.id source octets = true
  · simp only [if_pos hreply]
    rcases Wire.decode_take now octets (max settings.bufferSize Wire.headerSize) with
      ⟨fault, hfault⟩ | hwhole
    · rw [readable, hfault]
      exact .inl rfl
    · rw [readable, hwhole]
      exact .inr rfl
  · rw [if_neg hreply, if_neg hreply]
    exact .inr rfl

/-- A delegation whose names point back into the message. -/
def delegation : List UInt8 :=
  [0, 7, 0x84, 0, 0, 1, 0, 1, 0, 0, 0, 0] ++ [3, 99, 111, 109, 0, 0, 2, 0, 1] ++
    [0xC0, 12, 0, 2, 0, 1, 0, 0, 0, 60, 0, 4, 1, 97, 0xC0, 12]

theorem delegation_read_with_tail :
    ∃ m, m.answers = [.learned 5 ⟨"com", .ns, .«in»⟩ 60 (.name "a.com")] ∧
      Wire.decode 5 delegation = .ok m ∧ Wire.decode 5 (delegation ++ [0xC0, 12, 0]) = .ok m := by
  have hread : Wire.decode 5 delegation = .ok
      ⟨7, { response := true, authoritative := true }, some ⟨"com", .ns, .«in»⟩,
        [.learned 5 ⟨"com", .ns, .«in»⟩ 60 (.name "a.com")], [], []⟩ := by
    decide +kernel
  exact ⟨_, rfl, hread, (cut_is_refused_or_read_as_whole 5).1 _ _ _ hread⟩

end Exchange

end IterativeDns
