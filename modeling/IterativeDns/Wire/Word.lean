/-!
# Words

Numbers of sixteen and thirty-two bits as octets, most significant octet first.
-/

namespace IterativeDns.Wire

def word16 (w : UInt16) : List UInt8 :=
  [.ofNat (w.toNat / 256), .ofNat (w.toNat % 256)]

def word32 (w : UInt32) : List UInt8 :=
  [.ofNat (w.toNat / 16777216), .ofNat (w.toNat / 65536 % 256), .ofNat (w.toNat / 256 % 256),
    .ofNat (w.toNat % 256)]

def ofOctets16 (a b : UInt8) : UInt16 :=
  .ofNat (a.toNat * 256 + b.toNat)

def ofOctets32 (a b c d : UInt8) : UInt32 :=
  .ofNat (a.toNat * 16777216 + b.toNat * 65536 + c.toNat * 256 + d.toNat)

@[simp] theorem length_word16 (w : UInt16) : (word16 w).length = 2 := rfl

@[simp] theorem length_word32 (w : UInt32) : (word32 w).length = 4 := rfl

theorem ofOctets16_word16 (w : UInt16) :
    ofOctets16 (.ofNat (w.toNat / 256)) (.ofNat (w.toNat % 256)) = w := by
  have h : w.toNat < 65536 := w.toNat_lt
  apply UInt16.toNat_inj.1
  simp only [ofOctets16, UInt8.toNat_ofNat', UInt16.toNat_ofNat']
  omega

theorem ofOctets32_word32 (w : UInt32) :
    ofOctets32 (.ofNat (w.toNat / 16777216)) (.ofNat (w.toNat / 65536 % 256))
      (.ofNat (w.toNat / 256 % 256)) (.ofNat (w.toNat % 256)) = w := by
  have h : w.toNat < 4294967296 := w.toNat_lt
  apply UInt32.toNat_inj.1
  simp only [ofOctets32, UInt8.toNat_ofNat', UInt32.toNat_ofNat']
  omega

end IterativeDns.Wire
