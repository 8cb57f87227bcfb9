import IterativeDns.Wire.Decoding
import IterativeDns.Wire.Encoding

/-!
# Message headers

The ID and the flags stand in the first four octets of a message, and there `peek` finds them
without reading the rest. What it finds is what a full reading finds (`peek_of_decode`), and what
a written message was given (`peek_of_encode`), as long as its numbers fit into four bits.
-/

namespace IterativeDns

/-! ### The word of the flags -/

namespace Flags

/-- The operation code and the response code fit into four bits each. -/
def Fits (f : Flags) : Prop :=
  f.opcode.toNat < 16 ∧ f.rcode.toNat < 16

instance (f : Flags) : Decidable f.Fits :=
  inferInstanceAs (Decidable (_ ∧ _))

theorem fits_default : Fits {} := by decide

/-- A bit of a word that is built from parts, given that the parts put it there. -/
theorem bit_eq {w : UInt16} {weight : Nat} {b : Bool} (h : w.toNat / weight % 2 = b.toNat) :
    bit w weight = b := by
  rw [bit, h]
  cases b <;> rfl

/-- Flags that fit are read back from their word. -/
theorem ofWord_word {f : Flags} (hf : f.Fits) : ofWord f.word = f := by
  obtain ⟨hop, hr⟩ := hf
  have h1 := f.response.toNat_le
  have h2 := f.authoritative.toNat_le
  have h3 := f.truncated.toNat_le
  have h4 := f.recursionDesired.toNat_le
  have h5 := f.recursionAvailable.toNat_le
  have hword : f.word.toNat = f.response.toNat * 0x8000 + f.opcode.toNat * 0x0800
      + f.authoritative.toNat * 0x0400 + f.truncated.toNat * 0x0200
      + f.recursionDesired.toNat * 0x0100 + f.recursionAvailable.toNat * 0x0080
      + f.rcode.toNat := by
    rw [word, UInt16.toNat_ofNat', Nat.mod_eq_of_lt hop, Nat.mod_eq_of_lt hr]
    exact Nat.mod_eq_of_lt (by omega)
  -- every part of the sum is smaller than the weight of the next
  have hopcode : f.word.toNat / 0x0800 % 16 = f.opcode.toNat := by omega
  have hrcode : f.word.toNat % 16 = f.rcode.toNat := by omega
  rw [ofWord, hopcode, hrcode, UInt8.ofNat_toNat, UInt8.ofNat_toNat,
    bit_eq (b := f.response) (by omega), bit_eq (b := f.authoritative) (by omega),
    bit_eq (b := f.truncated) (by omega), bit_eq (b := f.recursionDesired) (by omega),
    bit_eq (b := f.recursionAvailable) (by omega)]

end Flags

namespace Wire

/-! ### Results that are no faults -/

theorem bind_eq_ok {α β : Type} {x : Except Fault α} {f : α → Except Fault β} {b : β} :
    (x >>= f) = .ok b ↔ ∃ a, x = .ok a ∧ f a = .ok b := by
  cases x with
  | error fault => simp [bind, Except.bind]
  | ok a => simp [bind, Except.bind]

theorem bind_eq_error {α β : Type} {x : Except Fault α} {f : α → Except Fault β} {fault : Fault} :
    (x >>= f) = .error fault ↔ x = .error fault ∨ ∃ a, x = .ok a ∧ f a = .error fault := by
  cases x with
  | error other => simp [bind, Except.bind]
  | ok a => simp [bind, Except.bind]

theorem ok_bind {α β : Type} (a : α) (f : α → Except Fault β) : (Except.ok a >>= f) = f a := rfl

theorem pure_eq_ok {α : Type} {a b : α} : (pure a : Except Fault α) = .ok b ↔ a = b :=
  Except.ok.injEq a b ▸ Iff.rfl

/-! ### Headers of written messages -/

theorem encodeCount_eq_ok {records : List Record} {octets : List UInt8} :
    encodeCount records = .ok octets ↔
      records.length ≤ 65535 ∧ octets = word16 (.ofNat records.length) := by
  unfold encodeCount
  split
  · next h => simp [throw, throwThe, MonadExceptOf.throw, Nat.not_le.2 h]
  · next h => simp [pure, Except.pure, Nat.le_of_not_lt h, eq_comm]

theorem encodeCount_eq_error {records : List Record} {fault : Fault}
    (h : encodeCount records = .error fault) : fault = .tooManyRecords := by
  unfold encodeCount at h
  split at h
  · cases h
    rfl
  · cases h

/-- A written message is its header, its question and its records. -/
theorem encode_eq_ok {m : Message} {octets : List UInt8} (h : encode m = .ok octets) :
    ∃ question records, encodeQuestion? m.question = .ok question ∧
      encodeRecords m.allRecords = .ok records ∧
      m.answers.length ≤ 65535 ∧ m.authorities.length ≤ 65535 ∧ m.additionals.length ≤ 65535 ∧
      octets = word16 m.id ++ word16 m.flags.word
        ++ word16 (if m.question.isSome then 1 else 0) ++ word16 (.ofNat m.answers.length)
        ++ word16 (.ofNat m.authorities.length) ++ word16 (.ofNat m.additionals.length)
        ++ question ++ records := by
  simp only [encode, bind_eq_ok, encodeCount_eq_ok, pure_eq_ok] at h
  obtain ⟨_, ⟨han, rfl⟩, _, ⟨hns, rfl⟩, _, ⟨har, rfl⟩, question, hquestion, records, hrecords,
    rfl⟩ := h
  exact ⟨question, records, hquestion, hrecords, han, hns, har, rfl⟩

/-! ### What peeking finds -/

theorem peek_words (id w : UInt16) (rest : List UInt8) :
    peek (word16 id ++ word16 w ++ rest) = some (id, .ofWord w) := by
  show some (ofOctets16 _ _, Flags.ofWord (ofOctets16 _ _)) = _
  rw [ofOctets16_word16, ofOctets16_word16]

theorem peek_of_encode {m : Message} {octets : List UInt8} (hflags : m.flags.Fits)
    (h : encode m = .ok octets) : peek octets = some (m.id, m.flags) := by
  obtain ⟨question, records, -, -, -, -, -, rfl⟩ := encode_eq_ok h
  simp only [List.append_assoc]
  rw [← List.append_assoc, peek_words, Flags.ofWord_word hflags]

theorem peek_of_encodeQuery {q : Question} {id : UInt16} {octets : List UInt8}
    (h : encodeQuery q id = .ok octets) : peek octets = some (id, {}) :=
  peek_of_encode Flags.fits_default h

theorem takeWord16_eq_ok {message : List UInt8} {position next : Nat} {w : UInt16}
    (h : takeWord16 message position = .ok (w, next)) :
    ∃ a b rest, message.drop position = a :: b :: rest ∧ w = ofOctets16 a b ∧
      next = position + 2 := by
  unfold takeWord16 at h
  split at h
  · next a b rest hdrop =>
    cases h
    exact ⟨a, b, rest, hdrop, rfl, rfl⟩
  · cases h

/-- Whoever reads a message finds the ID and the flags that peeking finds. -/
theorem peek_of_decode {now : Instant} {octets : List UInt8} {m : Message}
    (h : decode now octets = .ok m) : peek octets = some (m.id, m.flags) := by
  unfold decode at h
  split at h
  · cases h
  · simp only [bind_eq_ok] at h
    obtain ⟨⟨id, p⟩, hid, ⟨flags, p'⟩, hflags, h⟩ := h
    obtain ⟨a, b, rest, hdrop, rfl, rfl⟩ := takeWord16_eq_ok hid
    obtain ⟨c, d, rest', hdrop', rfl, rfl⟩ := takeWord16_eq_ok hflags
    -- the flags were read from behind the ID
    have hfront : octets = a :: b :: c :: d :: rest' := by
      rw [List.drop_zero] at hdrop
      subst hdrop
      simpa using hdrop'
    have hm : m.id = ofOctets16 a b ∧ m.flags = .ofWord (ofOctets16 c d) := by
      obtain ⟨_, -, _, -, _, -, _, -, h⟩ := h
      split at h
      · cases h
      · simp only [bind_eq_ok, pure_eq_ok] at h
        obtain ⟨_, -, _, -, _, -, _, -, rfl⟩ := h
        exact ⟨rfl, rfl⟩
    rw [hm.1, hm.2, hfront]
    rfl

end Wire

end IterativeDns
