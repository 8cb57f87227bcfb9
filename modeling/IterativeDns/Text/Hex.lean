import IterativeDns.Text.Digits

/-!
# Octets as hexadecimal text

Uninterpreted record data is kept as text, two digits to an octet. `encode` writes lower-case
digits and `decode?` reads them in either case. A pair may also be a plus sign and one digit,
which reads as that digit; nothing else is accepted. Main fact: `decode?_encode`.
-/

namespace IterativeDns.Text.Hex

/-- The lower-case digit of a number below sixteen. -/
def digitChar (n : Nat) : Char :=
  "0123456789abcdef".toList.getD n '0'

/-- The two digits of an octet. -/
def pair (b : UInt8) : List Char :=
  [digitChar (b.toNat / 16), digitChar (b.toNat % 16)]

/-- The text of a sequence of octets. -/
def encodeChars (bytes : List UInt8) : List Char :=
  bytes.flatMap pair

def encode (bytes : List UInt8) : String :=
  String.ofList (encodeChars bytes)

/-- The value of the first character of a pair; a plus sign counts nothing. -/
def highDigit? (c : Char) : Option Nat :=
  if c = '+' then some 0 else digit? c

/-- The octet written by two characters. -/
def octet? (high low : Char) : Option UInt8 := do
  let h ← highDigit? high
  let l ← digit? low
  return UInt8.ofNat (h * 16 + l)

/-- The octets written by a text, pair by pair. -/
def decodeChars? : List Char → Option (List UInt8)
  | [] => some []
  | [_] => none
  | high :: low :: rest => do
    let b ← octet? high low
    let bytes ← decodeChars? rest
    return b :: bytes

def decode? (text : String) : Option (List UInt8) :=
  decodeChars? text.toList

@[simp] theorem toList_encode (bytes : List UInt8) : (encode bytes).toList = encodeChars bytes := by
  simp [encode]

@[simp] theorem encodeChars_nil : encodeChars [] = [] := rfl

@[simp] theorem encodeChars_cons (b : UInt8) (bytes : List UInt8) :
    encodeChars (b :: bytes) = pair b ++ encodeChars bytes := rfl

theorem digit?_digitChar : ∀ n < 16, digit? (digitChar n) = some n := by decide

theorem digitChar_ne_plus : ∀ n < 16, digitChar n ≠ '+' := by decide

theorem octet?_pair (b : UInt8) :
    octet? (digitChar (b.toNat / 16)) (digitChar (b.toNat % 16)) = some b := by
  have hb : b.toNat < 256 := b.toNat_lt
  have hhi : b.toNat / 16 < 16 := by omega
  have hlo : b.toNat % 16 < 16 := by omega
  have hsum : b.toNat / 16 * 16 + b.toNat % 16 = b.toNat := by omega
  unfold octet? highDigit?
  rw [if_neg (digitChar_ne_plus _ hhi), digit?_digitChar _ hhi, digit?_digitChar _ hlo]
  show some (UInt8.ofNat (b.toNat / 16 * 16 + b.toNat % 16)) = some b
  rw [hsum, UInt8.ofNat_toNat]

theorem decodeChars?_encodeChars (bytes : List UInt8) :
    decodeChars? (encodeChars bytes) = some bytes := by
  induction bytes with
  | nil => rfl
  | cons b bytes ih => simp [pair, decodeChars?, octet?_pair, ih]

theorem decode?_encode (bytes : List UInt8) : decode? (encode bytes) = some bytes := by
  simp [decode?, decodeChars?_encodeChars]

end IterativeDns.Text.Hex
