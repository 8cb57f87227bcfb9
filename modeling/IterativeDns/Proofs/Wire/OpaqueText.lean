import IterativeDns.Proofs.Wire.Messages
import Mathlib.Data.Bool.AllAny

/-!
# Octets as text in messages

Record data that nothing is known about is kept as hexadecimal text. What is written there by
reading a message is an even number of lower-case digits; this module says what becomes of any other
text when the message is written.

**A text is read exactly if it is made of pairs of digits, where a plus sign may stand for the first
digit of a pair** (`decode?_eq_some_iff`). Without plus signs this is what hexadecimal text should
be. With them it is not: `"+a"` reads as the octet ten, which is written `"0a"`. Text of any other
form keeps the message from being written (`encode_eq_dataNotHex_iff`).

Texts are read here character by character. Their octets in UTF-8, taken two at a time, would give
the same: a longer character has no octet that is a digit (`decodeChars?_asChars_utf8`).
-/

namespace IterativeDns

namespace Text.Hex

/-! ### Digits

What holds of digits is checked along the list of them. Stated of characters and left to `decide`
it would be checked for every character there is. -/

/-- The hexadecimal digits, in either case. -/
def digits : List Char := "0123456789abcdefABCDEF".toList

/-- The lower-case digit that a character of a pair is read as; a plus sign adds nothing. -/
def plainDigit (c : Char) : Char :=
  if c = '+' then '0' else c.toLower

theorem digit?_of_mem : ∀ c ∈ digits, ∃ n < 16, digit? c = some n ∧ digitChar n = plainDigit c :=
  List.all_iff_forall_prop.1 (by decide)

theorem highDigit?_of_mem :
    ∀ c ∈ '+' :: digits, ∃ n < 16, highDigit? c = some n ∧ digitChar n = plainDigit c :=
  List.all_iff_forall_prop.1 (by decide)

theorem mem_digits_of_between {lo hi c : Char} (hlo : lo ≤ c) (hhi : c ≤ hi)
    (h : ∀ n < hi.toNat + 1, lo.toNat ≤ n → Char.ofNat n ∈ digits) : c ∈ digits := by
  have hmem := h c.toNat (Nat.lt_succ_of_le (UInt32.le_iff_toNat_le.1 hhi))
    (UInt32.le_iff_toNat_le.1 hlo)
  rwa [Char.ofNat_toNat] at hmem

theorem mem_digits_of_digit? {c : Char} {n : Nat} (h : digit? c = some n) : c ∈ digits := by
  unfold digit? at h
  split at h
  · next hc => exact mem_digits_of_between hc.1 hc.2 (by decide)
  · split at h
    · next hc => exact mem_digits_of_between hc.1 hc.2 (by decide)
    · split at h
      · next hc => exact mem_digits_of_between hc.1 hc.2 (by decide)
      · cases h

theorem mem_of_highDigit? {c : Char} {n : Nat} (h : highDigit? c = some n) : c ∈ '+' :: digits := by
  unfold highDigit? at h
  split at h
  · next hplus => exact List.mem_cons.2 (.inl hplus)
  · exact List.mem_cons_of_mem _ (mem_digits_of_digit? h)

/-! ### Pairs -/

theorem octet?_of_mem {high low : Char} (hhigh : high ∈ '+' :: digits) (hlow : low ∈ digits) :
    ∃ b, octet? high low = some b ∧ pair b = [plainDigit high, plainDigit low] := by
  obtain ⟨h, hh, hreadHigh, hplainHigh⟩ := highDigit?_of_mem high hhigh
  obtain ⟨l, hl, hreadLow, hplainLow⟩ := digit?_of_mem low hlow
  refine ⟨.ofNat (h * 16 + l), ?_, ?_⟩
  · rw [octet?, hreadHigh, hreadLow]
    rfl
  · rw [pair_ofNat hh hl, hplainHigh, hplainLow]

theorem mem_of_octet? {high low : Char} {b : UInt8} (h : octet? high low = some b) :
    high ∈ '+' :: digits ∧ low ∈ digits := by
  obtain ⟨m, hhigh, h⟩ := Option.bind_eq_some_iff.1 h
  obtain ⟨n, hlow, -⟩ := Option.bind_eq_some_iff.1 h
  exact ⟨mem_of_highDigit? hhigh, mem_digits_of_digit? hlow⟩

/-- The text is made of pairs of digits; a plus sign may stand where a pair begins. -/
structure IsPaired (cs : List Char) : Prop where
  even : cs.length % 2 = 0
  digit : ∀ i c, cs[i]? = some c → c ∈ digits ∨ c = '+' ∧ i % 2 = 0

theorem IsPaired.mem {cs : List Char} (h : IsPaired cs) {c : Char} (hc : c ∈ cs) :
    c ∈ '+' :: digits := by
  obtain ⟨i, hi⟩ := List.mem_iff_getElem?.1 hc
  rcases h.digit i c hi with hdigit | ⟨hplus, -⟩
  · exact List.mem_cons_of_mem _ hdigit
  · exact List.mem_cons.2 (.inl hplus)

theorem isPaired_cons_cons {high low : Char} {rest : List Char} :
    IsPaired (high :: low :: rest) ↔
      (high ∈ '+' :: digits ∧ low ∈ digits) ∧ IsPaired rest := by
  constructor
  · intro h
    obtain ⟨heven, hdigit⟩ := h
    refine ⟨⟨?_, ?_⟩, ?_, ?_⟩
    · rcases hdigit 0 high rfl with hhigh | ⟨hplus, -⟩
      · exact List.mem_cons_of_mem _ hhigh
      · exact List.mem_cons.2 (.inl hplus)
    · rcases hdigit 1 low rfl with hlow | ⟨-, hodd⟩
      · exact hlow
      · cases hodd
    · simp only [List.length_cons] at heven
      omega
    · intro i c hc
      have := hdigit (i + 2) c hc
      rwa [Nat.add_mod_right] at this
  · intro h
    obtain ⟨⟨hhigh, hlow⟩, heven, hdigit⟩ := h
    refine ⟨by simp only [List.length_cons]; omega, ?_⟩
    intro i c hc
    match i with
    | 0 =>
      cases hc
      rcases List.mem_cons.1 hhigh with hplus | hhigh
      · exact .inr ⟨hplus, rfl⟩
      · exact .inl hhigh
    | 1 =>
      cases hc
      exact .inl hlow
    | i + 2 =>
      rw [Nat.add_mod_right]
      exact hdigit i c hc

/-! ### Texts -/

theorem decodeChars?_of_isPaired {cs : List Char} (h : IsPaired cs) :
    ∃ octets, decodeChars? cs = some octets ∧ encodeChars octets = cs.map plainDigit := by
  induction cs using decodeChars?.induct with
  | case1 => exact ⟨[], rfl, rfl⟩
  | case2 c => cases h.even
  | case3 high low rest ih =>
    obtain ⟨⟨hhigh, hlow⟩, hrest⟩ := isPaired_cons_cons.1 h
    obtain ⟨b, hb, hpair⟩ := octet?_of_mem hhigh hlow
    obtain ⟨octets, hoctets, htext⟩ := ih hrest
    refine ⟨b :: octets, by rw [decodeChars?, hb, hoctets]; rfl, ?_⟩
    rw [encodeChars_cons, hpair, htext]
    rfl

theorem isPaired_of_decodeChars? {cs : List Char} {octets : List UInt8}
    (h : decodeChars? cs = some octets) : IsPaired cs := by
  induction cs using decodeChars?.induct generalizing octets with
  | case1 => exact ⟨rfl, by simp⟩
  | case2 c => cases h
  | case3 high low rest ih =>
    obtain ⟨b, hb, h⟩ := Option.bind_eq_some_iff.1 h
    obtain ⟨bytes, hbytes, -⟩ := Option.bind_eq_some_iff.1 h
    exact isPaired_cons_cons.2 ⟨mem_of_octet? hb, ih hbytes⟩

theorem decodeChars?_eq_none {cs : List Char} (h : ¬IsPaired cs) : decodeChars? cs = none :=
  Option.eq_none_iff_forall_ne_some.2 fun _ hread => h (isPaired_of_decodeChars? hread)

theorem encodeChars_injective : Function.Injective encodeChars := by
  intro a b h
  have hread := decodeChars?_encodeChars a
  rw [h, decodeChars?_encodeChars] at hread
  exact (Option.some.inj hread).symm

/-- A text is read exactly if it is made of pairs. What it is read as is written with the same
digits, in lower case and with a zero for a plus sign. -/
theorem decode?_eq_some_iff {text : String} {octets : List UInt8} :
    decode? text = some octets ↔
      IsPaired text.toList ∧ (encode octets).toList = text.toList.map plainDigit := by
  rw [decode?, toList_encode]
  constructor
  · intro h
    have hpaired := isPaired_of_decodeChars? h
    obtain ⟨bytes, hbytes, htext⟩ := decodeChars?_of_isPaired hpaired
    rw [h, Option.some.injEq] at hbytes
    exact ⟨hpaired, hbytes ▸ htext⟩
  · intro h
    obtain ⟨hpaired, htext⟩ := h
    obtain ⟨bytes, hbytes, hplain⟩ := decodeChars?_of_isPaired hpaired
    rw [hbytes, encodeChars_injective (hplain.trans htext.symm)]

/-- Without plus signs a text is read exactly if it is an even number of digits, and it is written
in lower case. -/
theorem decode?_eq_some_iff_of_no_plus {text : String} {octets : List UInt8}
    (hplus : '+' ∉ text.toList) :
    decode? text = some octets ↔
      (text.toList.length % 2 = 0 ∧ ∀ c ∈ text.toList, c ∈ digits) ∧
        (encode octets).toList = lower text := by
  have hplain : text.toList.map plainDigit = lower text := by
    apply List.map_congr_left
    intro c hc
    exact if_neg (ne_of_mem_of_not_mem hc hplus)
  have hpaired : IsPaired text.toList ↔
      text.toList.length % 2 = 0 ∧ ∀ c ∈ text.toList, c ∈ digits := by
    constructor
    · intro hpaired
      refine ⟨hpaired.even, fun c hc => ?_⟩
      exact (List.mem_cons.1 (hpaired.mem hc)).resolve_left (ne_of_mem_of_not_mem hc hplus)
    · intro h
      obtain ⟨heven, hdigit⟩ := h
      exact ⟨heven, fun i c hi => .inl (hdigit c (List.mem_iff_getElem?.2 ⟨i, hi⟩))⟩
  rw [decode?_eq_some_iff, hplain, hpaired]

/-! ### Octet by octet -/

/-- Octets, each taken for the character with its number. -/
def asChars (octets : List UInt8) : List Char :=
  octets.map fun b => Char.ofNat b.toNat

theorem asChars_utf8 (text : String) :
    asChars (Wire.utf8 text) = text.toList.flatMap fun c => asChars (String.utf8EncodeChar c) := by
  have hutf8 : Wire.utf8 text = text.toList.flatMap String.utf8EncodeChar := by
    rw [Wire.utf8, String.toUTF8_eq_toByteArray, ← String.utf8Encode_toList, List.utf8Encode,
      List.toList_data_toByteArray]
  rw [hutf8, asChars, List.map_flatMap]
  rfl

theorem asChars_utf8EncodeChar : ∀ c ∈ '+' :: digits, asChars (String.utf8EncodeChar c) = [c] :=
  List.all_iff_forall_prop.1 (by decide)

theorem lt_of_mem : ∀ c ∈ '+' :: digits, c.toNat < 128 :=
  List.all_iff_forall_prop.1 (by decide)

theorem not_mem_of_high_octet {n : Nat} (hle : 128 ≤ n) (hlt : n < 256) :
    Char.ofNat (UInt8.ofNat n).toNat ∉ '+' :: digits := by
  intro hmem
  have hvalid : n.isValidChar := .inl (by omega)
  have hn : (UInt8.ofNat n).toNat = n := by
    rw [UInt8.toNat_ofNat']
    omega
  have hsmall := lt_of_mem _ hmem
  rw [hn, Char.ofNat, dif_pos hvalid] at hsmall
  exact absurd hsmall (Nat.not_lt.2 hle)

/-- A character that is no part of a pair has an octet that is none: itself, or the first of
several. -/
theorem exists_not_mem_asChars {c : Char} (h : c ∉ '+' :: digits) :
    ∃ d ∈ asChars (String.utf8EncodeChar c), d ∉ '+' :: digits := by
  unfold String.utf8EncodeChar
  dsimp only
  split
  · next hle =>
    refine ⟨c, List.mem_singleton.2 ?_, h⟩
    have hn : (UInt8.ofNat c.val.toNat).toNat = c.toNat := by
      rw [UInt8.toNat_ofNat', Nat.mod_eq_of_lt (by omega)]
      rfl
    dsimp only
    rw [hn, Char.ofNat_toNat]
  · split
    · exact ⟨_, List.mem_cons_self, not_mem_of_high_octet (by omega) (by omega)⟩
    · split
      · exact ⟨_, List.mem_cons_self, not_mem_of_high_octet (by omega) (by omega)⟩
      · exact ⟨_, List.mem_cons_self, not_mem_of_high_octet (by omega) (by omega)⟩

/-- A text is read as its octets are when they are taken two at a time. -/
theorem decodeChars?_asChars_utf8 (text : String) :
    decodeChars? (asChars (Wire.utf8 text)) = decode? text := by
  rw [asChars_utf8, decode?]
  by_cases hall : ∀ c ∈ text.toList, c ∈ '+' :: digits
  · rw [List.flatMap_congr fun c hc => asChars_utf8EncodeChar c (hall c hc),
      List.flatMap_singleton']
  · push Not at hall
    obtain ⟨c, hc, hout⟩ := hall
    obtain ⟨d, hd, hdout⟩ := exists_not_mem_asChars hout
    rw [decodeChars?_eq_none fun hpaired => hout (hpaired.mem hc),
      decodeChars?_eq_none fun hpaired => hdout (hpaired.mem (List.mem_flatMap.2 ⟨c, hc, hd⟩))]

end Text.Hex

/-! ### Records that cannot be written -/

namespace Wire

open Text.Hex (IsPaired)

theorem isOfName_of_encodeLabel {name : String} {label : List Char} {fault : Fault}
    (h : encodeLabel name label = .error fault) : fault.isOfName = true := by
  unfold encodeLabel at h
  dsimp only at h
  split at h
  · cases h
    rfl
  · split at h
    · cases h
      rfl
    · cases h

theorem isOfName_of_encodeName {text : String} {fault : Fault}
    (h : encodeName text = .error fault) : fault.isOfName = true := by
  obtain h | ⟨labels, -, h⟩ := bind_eq_error.1 h
  · unfold encodeLabels at h
    split at h
    · cases h
    · obtain h | ⟨parts, -, h⟩ := bind_eq_error.1 h
      · obtain ⟨-, label, -, -, -, h⟩ := mapM_eq_error.1 h
        exact isOfName_of_encodeLabel h
      · cases h
  · split at h
    · cases h
      rfl
    · cases h

theorem isOfName_of_encodeQuestion {q : Question} {fault : Fault}
    (h : encodeQuestion q = .error fault) : fault.isOfName = true := by
  obtain h | ⟨name, -, h⟩ := bind_eq_error.1 h
  · exact isOfName_of_encodeName h
  · cases h

/-- The data of the record is kept as text that is not made of pairs of digits. -/
def HasUnreadableText (r : Record) : Prop :=
  ∃ hex, r.data = .octets hex ∧ ¬IsPaired hex.toList

theorem encodeData_eq_dataNotHex_iff {r : Record} {owner : String} :
    encodeData r = .error (.dataNotHex owner) ↔ HasUnreadableText r ∧ r.name = owner := by
  unfold encodeData HasUnreadableText
  cases r.data with
  | address ip => simp [pure, Except.pure]
  | name target =>
    simp only [reduceCtorEq, false_and, exists_false, iff_false]
    intro h
    obtain h | ⟨name, -, h⟩ := bind_eq_error.1 h
    · cases isOfName_of_encodeName h
    · cases h
  | octets hex =>
    simp only [Rdata.octets.injEq, exists_eq_left']
    by_cases hpaired : IsPaired hex.toList
    · obtain ⟨octets, hread, -⟩ := Text.Hex.decodeChars?_of_isPaired hpaired
      simp [Text.Hex.decode?, hread, hpaired, pure, Except.pure]
    · simp [Text.Hex.decode?, Text.Hex.decodeChars?_eq_none hpaired, hpaired, throw, throwThe,
        MonadExceptOf.throw]

theorem encodeRecord_eq_dataNotHex_iff {r : Record} {owner : String} :
    encodeRecord r = .error (.dataNotHex owner) ↔
      (∃ octets, encodeName r.name = .ok octets) ∧ HasUnreadableText r ∧ r.name = owner := by
  rw [← encodeData_eq_dataNotHex_iff]
  constructor
  · intro h
    obtain h | ⟨front, hfront, h⟩ := bind_eq_error.1 h
    · cases isOfName_of_encodeQuestion h
    · obtain ⟨name, hname, -⟩ := encodeQuestion_eq_ok.1 hfront
      refine ⟨⟨name, hname⟩, ?_⟩
      obtain h | ⟨data, -, h⟩ := bind_eq_error.1 h
      · exact h
      · -- data that was written can only be too long
        obtain h | ⟨sized, -, h⟩ := bind_eq_error.1 h
        · unfold encodeSized at h
          split at h <;> cases h
        · cases h
  · intro h
    obtain ⟨⟨name, hname⟩, hdata⟩ := h
    have howner := encodeQuestion_eq_ok (q := r.question).2 ⟨name, hname, rfl⟩
    rw [encodeRecord, howner, ok_bind, hdata]
    rfl

/-- All that a message has before the data of a record can be written; `front` are the records
before it. -/
structure IsWritableUpTo (m : Message) (front : List Record) (r : Record) : Prop where
  counts : ∀ s, (m.records s).length ≤ 65535
  question : ∃ octets, encodeQuestion? m.question = .ok octets
  front : ∀ other ∈ front, ∃ octets, encodeRecord other = .ok octets
  owner : ∃ octets, encodeName r.name = .ok octets

theorem encodeRecords_eq_error {rs : List Record} {fault : Fault} :
    encodeRecords rs = .error fault ↔
      ∃ front r rest, rs = front ++ r :: rest ∧
        (∀ other ∈ front, ∃ octets, encodeRecord other = .ok octets) ∧
        encodeRecord r = .error fault := by
  rw [← mapM_eq_error, encodeRecords, bind_eq_error]
  apply or_iff_left
  intro h
  obtain ⟨parts, -, h⟩ := h
  cases h

/-- A message is refused for its text exactly if its first record that cannot be written has
unreadable text and an owner that can be written. -/
theorem encode_eq_dataNotHex_iff {m : Message} {owner : String} :
    encode m = .error (.dataNotHex owner) ↔
      ∃ front r rest, m.allRecords = front ++ r :: rest ∧ IsWritableUpTo m front r ∧
        HasUnreadableText r ∧ r.name = owner := by
  have hcount : ∀ records, encodeCount records ≠ .error (.dataNotHex owner) := by
    intro records h
    cases encodeCount_eq_error h
  have hquestion : ∀ q?, encodeQuestion? q? ≠ .error (.dataNotHex owner) := by
    intro q? h
    cases q? with
    | none => cases h
    | some q => cases isOfName_of_encodeQuestion h
  constructor
  · intro h
    simp only [encode, bind_eq_error, hcount, hquestion, false_or, encodeCount_eq_ok] at h
    obtain ⟨_, ⟨han, -⟩, _, ⟨hns, -⟩, _, ⟨har, -⟩, question, hq, h⟩ := h
    obtain h | ⟨records, -, h⟩ := h
    · obtain ⟨front, r, rest, hsplit, hfront, h⟩ := encodeRecords_eq_error.1 h
      obtain ⟨howner, hr⟩ := encodeRecord_eq_dataNotHex_iff.1 h
      refine ⟨front, r, rest, hsplit, ⟨?_, ⟨question, hq⟩, hfront, howner⟩, hr⟩
      intro s
      cases s with
      | answer => exact han
      | authority => exact hns
      | additional => exact har
    · cases h
  · intro h
    obtain ⟨front, r, rest, hsplit, ⟨hcounts, ⟨question, hq⟩, hfront, howner⟩, hr⟩ := h
    have hrecords : encodeRecords m.allRecords = .error (.dataNotHex owner) :=
      encodeRecords_eq_error.2
        ⟨front, r, rest, hsplit, hfront, encodeRecord_eq_dataNotHex_iff.2 ⟨howner, hr⟩⟩
    have hcount : ∀ s, encodeCount (m.records s) = .ok (word16 (.ofNat (m.records s).length)) :=
      fun s => encodeCount_eq_ok.2 ⟨hcounts s, rfl⟩
    rw [encode, show encodeCount m.answers = _ from hcount .answer,
      show encodeCount m.authorities = _ from hcount .authority,
      show encodeCount m.additionals = _ from hcount .additional, hq, hrecords]
    rfl

/-- No message with such a record is written, whatever else there is to find fault with. -/
theorem encode_ne_ok_of_hasUnreadableText {m : Message} {r : Record} (hr : r ∈ m.allRecords)
    (htext : HasUnreadableText r) (octets : List UInt8) : encode m ≠ .ok octets := by
  intro h
  obtain ⟨question, records, -, hrecords, -⟩ := encode_eq_ok h
  obtain ⟨part, hpart⟩ := exists_encodeRecords_iff.1 ⟨records, hrecords⟩ r hr
  obtain ⟨name, data, -, hdata, -⟩ := encodeRecord_eq_ok.1 hpart
  rw [encodeData_eq_dataNotHex_iff.2 ⟨htext, rfl⟩] at hdata
  cases hdata

/-- A text stands for octets if it is made of pairs of digits, and is then what these octets are
written as but for letter case and plus signs. Taking the octets of the text two at a time comes to
the same. A record with any other text keeps its message from being written, and is what is found
fault with if all before its data can be written. -/
theorem reads_exactly_paired_text (text : String) (octets : List UInt8) :
    (Text.Hex.decode? text = some octets ↔
      IsPaired text.toList ∧
        (Text.Hex.encode octets).toList = text.toList.map Text.Hex.plainDigit) ∧
    ('+' ∉ text.toList →
      (Text.Hex.decode? text = some octets ↔
        (text.toList.length % 2 = 0 ∧ ∀ c ∈ text.toList, c ∈ Text.Hex.digits) ∧
          (Text.Hex.encode octets).toList = Text.lower text)) ∧
    Text.Hex.decode? (Text.Hex.encode octets) = some octets ∧
    Text.Hex.decodeChars? (Text.Hex.asChars (utf8 text)) = Text.Hex.decode? text ∧
    ∀ (m : Message) (front rest : List Record) (r : Record),
      m.allRecords = front ++ r :: rest → r.data = .octets text → ¬IsPaired text.toList →
      (∀ written, encode m ≠ .ok written) ∧
        (IsWritableUpTo m front r →
          encode m = .error (.dataNotHex r.name) ∧
            (Fault.dataNotHex r.name).toFailure =
              .malformedMessage ("Opaque RDATA of " ++ r.name ++ " is not hex")) := by
  refine ⟨Text.Hex.decode?_eq_some_iff, Text.Hex.decode?_eq_some_iff_of_no_plus,
    Text.Hex.decode?_encode octets, Text.Hex.decodeChars?_asChars_utf8 text, ?_⟩
  intro m front rest r hsplit hdata hpaired
  have htext : HasUnreadableText r := ⟨text, hdata, hpaired⟩
  have hr : r ∈ m.allRecords := by simp [hsplit]
  refine ⟨encode_ne_ok_of_hasUnreadableText hr htext, fun hbefore => ⟨?_, rfl⟩⟩
  exact encode_eq_dataNotHex_iff.2 ⟨front, r, rest, hsplit, hbefore, htext, rfl⟩

/-- A reply with one record of uninterpreted data, kept as the given text. -/
def replyWithText (text : String) : Message :=
  ⟨7, { response := true }, none, [.permanent ⟨"t", .txt, .«in»⟩ (.octets text)], [], []⟩

theorem no_digit_is_refused :
    '+' ∉ "0g".toList ∧ ¬IsPaired "0g".toList ∧
      encode (replyWithText "0g") = .error (.dataNotHex "t") := by
  have hpaired : ¬IsPaired "0g".toList := by
    intro h
    obtain hdigit | ⟨hplus, -⟩ := h.digit 1 'g' rfl
    · exact absurd hdigit (by decide)
    · cases hplus
  have hbefore : IsWritableUpTo (replyWithText "0g") []
      (.permanent ⟨"t", .txt, .«in»⟩ (.octets "0g")) :=
    ⟨fun s => by cases s <;> decide, ⟨_, rfl⟩, by simp, ⟨[1, 116, 0], by decide +kernel⟩⟩
  obtain ⟨-, -, -, -, hrefused⟩ := reads_exactly_paired_text "0g" []
  exact ⟨by decide, hpaired, ((hrefused (replyWithText "0g") [] [] _ rfl rfl hpaired).2 hbefore).1⟩

/-- A text with a sign that is no digit is read and written. -/
theorem plus_sign_taken_for_digit :
    '+' ∉ Text.Hex.digits ∧ Text.Hex.decode? "+a" = some [10] ∧ Text.Hex.encode [10] = "0a" ∧
      encode (replyWithText "+a") =
        .ok [0, 7, 128, 0, 0, 0, 0, 1, 0, 0, 0, 0, 1, 116, 0, 0, 16, 0, 1, 255, 255, 255, 255,
          0, 1, 10] := by
  decide +kernel

end Wire

end IterativeDns
