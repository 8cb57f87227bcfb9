import IterativeDns.Proofs.Wire.Names

/-!
# Record data written and read

Which data suits a record of which type, and that data which suits is read as it was written
(`decodeData_of_hasAt`). The type decides how data is read, but the data alone decides how it is
written; that is why data of one kind in a record of another does not come back.
-/

namespace IterativeDns

/-! ### Hexadecimal text -/

namespace Text.Hex

/-- The digits `encode` writes. -/
def lowerDigits : List Char := "0123456789abcdef".toList

/-- The text is an even number of lower-case digits, as `encode` writes them. -/
def isPlain (text : String) : Bool :=
  text.toList.length % 2 == 0 && text.toList.all lowerDigits.contains

theorem lowerDigits_eq : lowerDigits = (List.range 16).map digitChar := by decide

theorem exists_of_mem_lowerDigits {c : Char} (h : c ∈ lowerDigits) : ∃ n < 16, digitChar n = c := by
  rw [lowerDigits_eq] at h
  obtain ⟨n, hn, rfl⟩ := List.mem_map.1 h
  exact ⟨n, List.mem_range.1 hn, rfl⟩

theorem pair_ofNat {high low : Nat} (hhigh : high < 16) (hlow : low < 16) :
    pair (.ofNat (high * 16 + low)) = [digitChar high, digitChar low] := by
  have hb : (UInt8.ofNat (high * 16 + low)).toNat = high * 16 + low := by
    rw [UInt8.toNat_ofNat']
    omega
  have hdiv : (high * 16 + low) / 16 = high := by omega
  have hmod : (high * 16 + low) % 16 = low := by omega
  simp only [pair, hb, hdiv, hmod]

theorem pair_of_octet? {high low : Char} {b : UInt8} (hhigh : high ∈ lowerDigits)
    (hlow : low ∈ lowerDigits) (h : octet? high low = some b) : pair b = [high, low] := by
  obtain ⟨m, hm, rfl⟩ := exists_of_mem_lowerDigits hhigh
  obtain ⟨n, hn, rfl⟩ := exists_of_mem_lowerDigits hlow
  rw [octet?, highDigit?, if_neg (digitChar_ne_plus m hm), digit?_digitChar m hm,
    digit?_digitChar n hn] at h
  cases h
  exact pair_ofNat hm hn

theorem encodeChars_of_decodeChars? {cs : List Char} {octets : List UInt8}
    (hdigits : ∀ c ∈ cs, c ∈ lowerDigits) (h : decodeChars? cs = some octets) :
    encodeChars octets = cs := by
  induction cs using decodeChars?.induct generalizing octets with
  | case1 =>
    cases h
    rfl
  | case2 c => cases h
  | case3 high low rest ih =>
    obtain ⟨b, hb, h⟩ := Option.bind_eq_some_iff.1 h
    obtain ⟨bytes, hbytes, h⟩ := Option.bind_eq_some_iff.1 h
    cases h
    simp only [List.mem_cons, forall_eq_or_imp] at hdigits
    obtain ⟨hhigh, hlow, hrest⟩ := hdigits
    rw [encodeChars_cons, pair_of_octet? hhigh hlow hb, ih hrest hbytes]
    rfl

/-- Plain text is what its octets are written as. -/
theorem encode_of_decode? {text : String} {octets : List UInt8} (hplain : isPlain text = true)
    (h : decode? text = some octets) : encode octets = text := by
  rw [isPlain, Bool.and_eq_true, List.all_eq_true] at hplain
  have hdigits : ∀ c ∈ text.toList, c ∈ lowerDigits :=
    fun c hc => List.contains_iff_mem.1 (hplain.2 c hc)
  rw [encode, encodeChars_of_decodeChars? hdigits h, String.ofList_toList]

end Text.Hex

/-! ### Data and types -/

namespace Rdata

/-- The data is what records of a type carry: an address of the right family, a name, or octets in
plain hexadecimal. -/
def suits (t : RecordType) : Rdata → Bool
  | .address ip => t == .a && ip.isV4 || t == .aaaa && !ip.isV4
  | .name _ => t.carriesName
  | .octets hex => !t.isAddress && !t.carriesName && Text.Hex.isPlain hex

/-- The data is no name with a closing dot. -/
def isUndotted : Rdata → Bool
  | .name target => target.toList.getLast? != some '.'
  | _ => true

end Rdata

namespace Wire

theorem length_octets {ip : Address} : ip.octets.length = if ip.isV4 then 4 else 16 := by
  cases ip with
  | v4 os => exact Address.length_octets_v4 os
  | v6 os => exact Address.length_octets_v6 os

/-- Data that is a name is read from behind its preamble. -/
theorem decodeData_of_decodeName {q : Question} {octets message : List UInt8} {position : Nat}
    {target : String} (hq : q.recordType.carriesName = true)
    (hlength : nameOffset q.recordType < octets.length)
    (hname : decodeName message (position + nameOffset q.recordType) =
      .ok (target, position + octets.length)) :
    decodeData message q position octets = .ok (.name target) := by
  have hshort : ¬(q.recordType = .mx ∧ octets.length < 3) := by
    intro h
    obtain ⟨hmx, hshort⟩ := h
    rw [hmx, nameOffset, if_pos rfl] at hlength
    omega
  rw [decodeData]
  cases ht : q.recordType with
  | ns | cname | mx =>
    -- the three types that carry a name are read alike
    rw [ht] at hshort hname
    dsimp only
    rw [if_neg hshort]
    simp only [hname]
    exact if_neg (Nat.lt_irrefl _)
  | _ =>
    rw [ht] at hq
    cases hq

/-- Data of a type that carries neither an address nor a name stays octets. -/
theorem decodeData_octets {q : Question} {octets message : List UInt8} {position : Nat}
    (haddress : q.recordType.isAddress = false) (hname : q.recordType.carriesName = false) :
    decodeData message q position octets = .ok (.octets (Text.Hex.encode octets)) := by
  rw [decodeData]
  cases ht : q.recordType with
  | a | aaaa =>
    rw [ht] at haddress
    cases haddress
  | ns | cname | mx =>
    rw [ht] at hname
    cases hname
  | _ => rfl

/-- Data that suits its type is read as it was written. -/
theorem decodeData_of_hasAt {r : Record} {octets message : List UInt8} {position : Nat}
    (hsuits : r.data.suits r.recordType = true) (hdot : r.data.isUndotted = true)
    (hencode : encodeData r = .ok octets) (h : HasAt message position octets) :
    decodeData message r.question position octets = .ok r.data := by
  unfold encodeData at hencode
  unfold Rdata.suits at hsuits
  cases hdata : r.data with
  | address ip =>
    rw [hdata] at hencode hsuits
    cases hencode
    simp only [Bool.or_eq_true, Bool.and_eq_true, beq_iff_eq, Bool.not_eq_true'] at hsuits
    rcases hsuits with ⟨ht, hfamily⟩ | ⟨ht, hfamily⟩
    · simp only [decodeData, show r.question.recordType = .a from ht, addressOfSize?,
        length_octets, hfamily, if_true, Address.ofOctets?_octets]
      rfl
    · simp only [decodeData, show r.question.recordType = .aaaa from ht, addressOfSize?,
        length_octets, hfamily, Address.ofOctets?_octets]
      rfl
  | name target =>
    rw [hdata] at hencode hsuits hdot
    obtain ⟨name, hname, hencode⟩ := bind_eq_ok.1 hencode
    cases pure_eq_ok.1 hencode
    -- the name is read from where the preamble ends
    have hpreamble : (namePreamble r.recordType).length = nameOffset r.recordType := by
      unfold namePreamble nameOffset
      split <;> rfl
    have hpos : 0 < name.length := by
      obtain ⟨-, -, rfl⟩ := encodeName_eq_ok.1 hname
      simp
    obtain ⟨-, hat⟩ := hasAt_append.1 h
    have hread := decodeName_of_hasAt hname hat
    rw [Name.stripDot_eq_self (bne_iff_ne.1 hdot), hpreamble, Nat.add_assoc, ← hpreamble,
      ← List.length_append, hpreamble] at hread
    refine decodeData_of_decodeName hsuits ?_ hread
    rw [List.length_append, hpreamble]
    exact Nat.lt_add_of_pos_right hpos
  | octets hex =>
    rw [hdata] at hencode hsuits
    simp only [Bool.and_eq_true, Bool.not_eq_true'] at hsuits
    obtain ⟨⟨haddress, hname⟩, hplain⟩ := hsuits
    simp only at hencode
    split at hencode
    · next bytes hdecode =>
      cases pure_eq_ok.1 hencode
      rw [decodeData_octets haddress hname, Text.Hex.encode_of_decode? hplain hdecode]
    · cases hencode

end Wire

end IterativeDns
