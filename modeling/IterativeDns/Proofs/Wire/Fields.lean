import IterativeDns.Proofs.Wire.Header
import Mathlib.Data.List.Forall2

/-!
# Fields at a position

Readers take the whole message and a position, writers give octets. `HasAt` ties the two: the
octets stand in the message at the position. It splits along `++` (`hasAt_append`), so that a
fact about a whole record becomes facts about its fields, and every reader of a field has a lemma
that says what it makes of a field that stands there.
-/

namespace IterativeDns.Wire

/-- The octets stand in the message at a position. -/
def HasAt (message : List UInt8) (position : Nat) (octets : List UInt8) : Prop :=
  ∃ before after, message = before ++ octets ++ after ∧ position = before.length

theorem hasAt_of_eq {message octets : List UInt8} (h : message = octets) :
    HasAt message 0 octets :=
  ⟨[], [], h.trans (List.append_nil _).symm, rfl⟩

theorem HasAt.le {message octets : List UInt8} {position : Nat}
    (h : HasAt message position octets) : position + octets.length ≤ message.length := by
  obtain ⟨before, after, rfl, rfl⟩ := h
  simp only [List.length_append]
  exact Nat.le_add_right _ _

theorem HasAt.drop {message octets : List UInt8} {position : Nat}
    (h : HasAt message position octets) :
    ∃ after, message.drop position = octets ++ after := by
  obtain ⟨before, after, rfl, rfl⟩ := h
  exact ⟨after, by rw [List.append_assoc, List.drop_left]⟩

theorem HasAt.take_drop {message octets : List UInt8} {position : Nat}
    (h : HasAt message position octets) :
    (message.drop position).take octets.length = octets := by
  obtain ⟨after, hdrop⟩ := h.drop
  rw [hdrop, List.take_left]

/-- Octets that are found at a position stand there. -/
theorem hasAt_of_take_drop {message octets : List UInt8} {position : Nat}
    (hle : position ≤ message.length) (h : (message.drop position).take octets.length = octets) :
    HasAt message position octets := by
  refine ⟨message.take position, (message.drop position).drop octets.length, ?_, ?_⟩
  · calc message
        = message.take position ++ ((message.drop position).take octets.length
            ++ (message.drop position).drop octets.length) := by
          rw [List.take_append_drop, List.take_append_drop]
      _ = message.take position ++ octets ++ (message.drop position).drop octets.length := by
          rw [h, List.append_assoc]
  · simp [hle]

/-- What stands at a position part by part stands there as a whole. -/
theorem hasAt_append {message a b : List UInt8} {position : Nat} :
    HasAt message position (a ++ b) ↔
      HasAt message position a ∧ HasAt message (position + a.length) b := by
  constructor
  · intro h
    obtain ⟨before, after, rfl, rfl⟩ := h
    refine ⟨⟨before, b ++ after, ?_, rfl⟩, ⟨before ++ a, after, ?_, ?_⟩⟩
    · simp only [List.append_assoc]
    · simp only [List.append_assoc]
    · exact List.length_append.symm
  · intro h
    obtain ⟨⟨before, after, rfl, rfl⟩, ⟨before', after', heq, hlength⟩⟩ := h
    rw [List.append_assoc before'] at heq
    -- both parts speak of one message, so what stands before the second ends with the first
    obtain ⟨rfl, rfl⟩ := List.append_inj heq (by rw [List.length_append, hlength])
    exact ⟨before, after', by simp only [List.append_assoc], rfl⟩

theorem HasAt.getElem? {message rest : List UInt8} {position : Nat} {octet : UInt8}
    (h : HasAt message position (octet :: rest)) : message[position]? = some octet := by
  obtain ⟨before, after, rfl, rfl⟩ := h
  simp

theorem hasAt_singleton {message : List UInt8} {position : Nat} {octet : UInt8}
    (h : message[position]? = some octet) : HasAt message position [octet] := by
  obtain ⟨hlt, hoctet⟩ := List.getElem?_eq_some_iff.1 h
  apply hasAt_of_take_drop (Nat.le_of_lt hlt)
  rw [List.drop_eq_getElem_cons hlt, hoctet]
  rfl

/-- Octets one after the other. -/
theorem hasAt_cons {message octets : List UInt8} {position : Nat} {octet : UInt8} :
    HasAt message position (octet :: octets) ↔
      message[position]? = some octet ∧ HasAt message (position + 1) octets := by
  rw [← List.singleton_append, hasAt_append]
  exact and_congr_left fun _ => ⟨HasAt.getElem?, hasAt_singleton⟩

/-! ### Readers of fields -/

theorem takeWord16_of_hasAt {message : List UInt8} {position : Nat} {w : UInt16}
    (h : HasAt message position (word16 w)) :
    takeWord16 message position = .ok (w, position + 2) := by
  obtain ⟨after, hdrop⟩ := h.drop
  rw [takeWord16, hdrop]
  show Except.ok (ofOctets16 _ _, _) = _
  rw [ofOctets16_word16]

theorem takeWord32_of_hasAt {message : List UInt8} {position : Nat} {w : UInt32}
    (h : HasAt message position (word32 w)) :
    takeWord32 message position = .ok (w, position + 4) := by
  obtain ⟨after, hdrop⟩ := h.drop
  rw [takeWord32, hdrop]
  show Except.ok (ofOctets32 _ _ _ _, _) = _
  rw [ofOctets32_word32]

theorem take_of_hasAt {message octets : List UInt8} {position : Nat}
    (h : HasAt message position octets) :
    take message octets.length position = .ok (octets, position + octets.length) := by
  rw [take, if_neg (Nat.not_lt.2 h.le), h.take_drop]
  rfl

/-! ### Several things in a row -/

/-- Things written one by one. -/
theorem mapM_eq_ok {α β : Type} {f : α → Except Fault β} {xs : List α} {ys : List β} :
    xs.mapM f = .ok ys ↔ List.Forall₂ (fun x y => f x = .ok y) xs ys := by
  induction xs generalizing ys with
  | nil => rw [List.mapM_nil, pure_eq_ok, List.forall₂_nil_left_iff, eq_comm]
  | cons x xs ih =>
    simp only [List.mapM_cons, bind_eq_ok, pure_eq_ok, ih]
    constructor
    · intro h
      obtain ⟨y, hy, ys, hys, rfl⟩ := h
      exact .cons hy hys
    · intro h
      rcases h with _ | ⟨hy, hys⟩
      exact ⟨_, hy, _, hys, rfl⟩

theorem exists_mapM_iff {α β : Type} {f : α → Except Fault β} {xs : List α} :
    (∃ ys, xs.mapM f = .ok ys) ↔ ∀ x ∈ xs, ∃ y, f x = .ok y := by
  induction xs with
  | nil => simp [List.mapM_nil, pure_eq_ok]
  | cons x xs ih =>
    rw [List.forall_mem_cons, ← ih]
    simp only [List.mapM_cons, bind_eq_ok, pure_eq_ok]
    constructor
    · intro h
      obtain ⟨_, y, hy, ys, hys, -⟩ := h
      exact ⟨⟨y, hy⟩, ys, hys⟩
    · intro h
      obtain ⟨⟨y, hy⟩, ys, hys⟩ := h
      exact ⟨_, y, hy, ys, hys, rfl⟩

/-- The first thing that cannot be written is at fault. -/
theorem mapM_eq_error {α β : Type} {f : α → Except Fault β} {xs : List α} {fault : Fault} :
    xs.mapM f = .error fault ↔
      ∃ front x rest, xs = front ++ x :: rest ∧ (∀ y ∈ front, ∃ b, f y = .ok b) ∧
        f x = .error fault := by
  induction xs with
  | nil =>
    constructor
    · intro h
      cases h
    · intro h
      obtain ⟨front, x, rest, hsplit, -⟩ := h
      cases front <;> cases hsplit
  | cons x xs ih =>
    have htail : ∀ y, (xs.mapM f >>= fun ys => pure (y :: ys)) = .error fault ↔
        xs.mapM f = .error fault := by
      intro y
      cases xs.mapM f <;> simp [bind, Except.bind, pure, Except.pure]
    simp only [List.mapM_cons, bind_eq_error (x := f x), htail, ih]
    constructor
    · intro h
      obtain hx | ⟨b, hb, front, y, rest, rfl, hfront, hy⟩ := h
      · exact ⟨[], x, xs, rfl, by simp, hx⟩
      · exact ⟨x :: front, y, rest, rfl, List.forall_mem_cons.2 ⟨⟨b, hb⟩, hfront⟩, hy⟩
    · intro h
      obtain ⟨front, y, rest, hsplit, hfront, hy⟩ := h
      cases front with
      | nil =>
        cases hsplit
        exact .inl hy
      | cons z front =>
        cases hsplit
        obtain ⟨⟨b, hb⟩, hfront⟩ := List.forall_mem_cons.1 hfront
        exact .inr ⟨b, hb, front, y, rest, rfl, hfront, hy⟩

/-- Things that stand one after the other are read one after the other. -/
theorem takeMany_of_hasAt {α : Type} {message : List UInt8}
    {takeOne : Nat → Except Fault (α × Nat)} {xs : List α} {parts : List (List UInt8)}
    {position : Nat}
    (hone : List.Forall₂ (fun x octets => ∀ position, HasAt message position octets →
      takeOne position = .ok (x, position + octets.length)) xs parts)
    (h : HasAt message position parts.flatten) :
    takeMany takeOne xs.length position = .ok (xs, position + parts.flatten.length) := by
  induction hone generalizing position with
  | nil => rfl
  | cons hx _ ih =>
    obtain ⟨hfirst, hrest⟩ := hasAt_append.1 h
    rw [List.length_cons, takeMany, hx position hfirst]
    show (takeMany takeOne _ _ >>= _) = _
    rw [ih hrest, List.flatten_cons, List.length_append, Nat.add_assoc]
    rfl

end IterativeDns.Wire
