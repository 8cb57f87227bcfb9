import IterativeDns.Wire.Word

/-!
# Messages on a stream

On a stream a message stands behind its length, a word of sixteen bits. Main fact:
`unframe?_frame`, what is framed is read again whatever follows it on the stream.
-/

namespace IterativeDns.Wire

/-- The most octets a message on a stream may have. -/
def maxFramed : Nat := 65535

/-- A message behind its length, or why it cannot be sent. -/
def frame (message : List UInt8) : Except String (List UInt8) :=
  if message.length ≤ maxFramed then .ok (word16 (.ofNat message.length) ++ message)
  else .error ("message of " ++ toString message.length ++ " bytes cannot be framed")

/-- The first message of a stream, once all of it is there. -/
def unframe? : List UInt8 → Option (List UInt8)
  | high :: low :: octets =>
    let length := (ofOctets16 high low).toNat
    if length ≤ octets.length then some (octets.take length) else none
  | _ => none

theorem unframe?_frame {message framed : List UInt8} (h : frame message = .ok framed)
    (rest : List UInt8) : unframe? (framed ++ rest) = some message := by
  unfold frame at h
  split at h
  · next hle =>
    cases h
    have hlen : (UInt16.ofNat message.length).toNat = message.length := by
      rw [UInt16.toNat_ofNat']
      unfold maxFramed at hle
      omega
    show (if _ ≤ (message ++ rest).length then some ((message ++ rest).take _) else none) = _
    rw [ofOctets16_word16, hlen]
    simp
  · cases h

end IterativeDns.Wire
