import IterativeDns.Proofs.Name.Labels
import IterativeDns.Proofs.Wire.Spelling
import IterativeDns.Proofs.Wire.Messages

/-!
# What can be read

Whatever octets are read as a message, the message has a form of its own: `Message.IsRead`. Its
flags and counts fit their fields, its types and classes are those of a code, and the data of its
records suits their types and can be written again (`isRead_of_decode`).

Names are the one thing that need not be written as they are. A name on the wire has labels that
can be written and no closing dot (`decodeName_eq_ok`), but the owner of a record is what
normalisation leaves of such a name, and normalisation looks at the text as a whole: it takes off
blanks that belong to the first and the last label. What is left is a part of the name, so its
labels are parts of labels and no longer than these (`exists_isInfix_of_mem_pieces`), and only a
label that vanishes at the front stands in the way of writing it (`encodeName_normalize`).
-/

namespace IterativeDns

namespace Wire

theorem length_utf8_ofList_append (a b : List Char) :
    (utf8 (String.ofList (a ++ b))).length =
      (utf8 (String.ofList a)).length + (utf8 (String.ofList b)).length := by
  have hlength : ∀ s : String, (utf8 s).length = s.utf8ByteSize := fun _ => rfl
  rw [hlength, hlength, hlength, String.ofList_append, String.utf8ByteSize_append]

theorem length_utf8_le_of_isInfix {part cs : List Char} (h : part <:+: cs) :
    (utf8 (String.ofList part)).length ≤ (utf8 (String.ofList cs)).length := by
  obtain ⟨a, b, rfl⟩ := h
  rw [length_utf8_ofList_append, length_utf8_ofList_append]
  omega

/-- The labels of a text take one octet more than the text: each dot stands for a length, and the
first label has a length of its own. -/
theorem length_labelOctets_pieces (cs : List Char) :
    ((Name.pieces cs).flatMap labelOctets).length = (utf8 (String.ofList cs)).length + 1 := by
  have hlabel : ∀ p : List Char, (labelOctets p).length = (utf8 (String.ofList p)).length + 1 :=
    fun _ => rfl
  induction cs with
  | nil => rfl
  | cons c cs ih =>
    obtain ⟨p, ps, hcs⟩ := List.exists_cons_of_ne_nil (Name.pieces_ne_nil cs)
    have hsum : (utf8 (String.ofList (c :: cs))).length =
        (utf8 (String.ofList [c])).length + (utf8 (String.ofList cs)).length :=
      length_utf8_ofList_append [c] cs
    by_cases hc : c = '.'
    · subst hc
      rw [Name.pieces, if_pos rfl, List.flatMap_cons, List.length_append, ih, hsum]
      rfl
    · have hgrown : (utf8 (String.ofList (c :: p))).length =
          (utf8 (String.ofList [c])).length + (utf8 (String.ofList p)).length :=
        length_utf8_ofList_append [c] p
      rw [hcs, List.flatMap_cons, List.length_append, hlabel] at ih
      simp only [Name.pieces, hc, if_false, hcs, List.flatMap_cons, List.length_append, hlabel]
      omega

/-- A text without a closing dot is written label by label. -/
theorem nameLabels_eq_pieces {text : String} (hne : text.toList ≠ [])
    (hdot : text.toList.getLast? ≠ some '.') : nameLabels text = Name.pieces text.toList := by
  simp only [nameLabels, Name.stripDotChars_eq_self_iff.2 hdot, hne, if_false]

/-- Normalisation leaves no closing dot where no two dots meet. -/
theorem getLast?_normalize_ne_dot {text : String} (h : ¬['.', '.'] <:+: text.toList) :
    (Name.normalize text).toList.getLast? ≠ some '.' := by
  rw [Name.toList_normalize, Name.stripDotChars]
  split
  · next hdot =>
    intro hlast
    apply h
    obtain ⟨front, hfront⟩ := List.getLast?_eq_some_iff.1 hdot
    rw [hfront, List.dropLast_concat] at hlast
    obtain ⟨front, rfl⟩ := List.getLast?_eq_some_iff.1 hlast
    have hsuffix : ['.', '.'] <:+ Text.trimChars text.toList := by
      rw [hfront, List.append_assoc]
      exact List.suffix_append front _
    exact hsuffix.isInfix.trans (Text.trimChars_isInfix _)
  · next hdot => exact hdot

/-- No two dots meet in a name that can be written, unless at its end. -/
theorem dots_not_infix_of_encodeName {text : String} {octets : List UInt8}
    (h : encodeName text = .ok octets) (hdot : text.toList.getLast? ≠ some '.') :
    ¬['.', '.'] <:+: text.toList := by
  obtain ⟨hlabels, -, -⟩ := encodeName_eq_ok.1 h
  intro hmeet
  have hne : text.toList ≠ [] := by
    intro hnil
    rw [hnil, List.infix_nil] at hmeet
    cases hmeet
  rw [nameLabels_eq_pieces hne hdot] at hlabels
  exact (hlabels [] (Name.nil_mem_pieces.2 (.inr (.inr (.inr hmeet))))).1 rfl

/-- A name without a closing dot that can be written can be written after normalisation too, unless
that takes away all of its first label. -/
theorem encodeName_normalize {text : String} {octets : List UInt8}
    (h : encodeName text = .ok octets) (hdot : text.toList.getLast? ≠ some '.') :
    (∃ written, encodeName (Name.normalize text) = .ok written) ↔
      (Name.normalize text).toList.head? ≠ some '.' := by
  obtain ⟨hlabels, hsize, -⟩ := encodeName_eq_ok.1 h
  have hpart := Name.normalize_isInfix text
  by_cases hroot : (Name.normalize text).toList = []
  · have hname : Name.normalize text = "" := String.toList_inj.1 hroot
    rw [hname]
    exact iff_of_true ⟨[0], rfl⟩ (by simp)
  have hne : text.toList ≠ [] := by
    intro hnil
    rw [hnil, List.infix_nil] at hpart
    exact hroot hpart
  rw [nameLabels_eq_pieces hne hdot] at hlabels hsize
  have hdots := dots_not_infix_of_encodeName h hdot
  have hlast := getLast?_normalize_ne_dot hdots
  have hnames := nameLabels_eq_pieces hroot hlast
  constructor
  · intro hwritten hhead
    obtain ⟨written, hwritten⟩ := hwritten
    obtain ⟨hlabels, -, -⟩ := encodeName_eq_ok.1 hwritten
    rw [hnames] at hlabels
    exact (hlabels [] (Name.nil_mem_pieces.2 (.inr (.inl hhead)))).1 rfl
  · intro hhead
    refine ⟨_, encodeName_eq_ok.2 ⟨?_, ?_, rfl⟩⟩
    · rw [hnames]
      intro label hlabel
      obtain ⟨whole, hwhole, hinfix⟩ := Name.exists_isInfix_of_mem_pieces hpart hlabel
      refine ⟨?_, Nat.le_trans (length_utf8_le_of_isInfix hinfix) (hlabels whole hwhole).2⟩
      rintro rfl
      rcases Name.nil_mem_pieces.1 hlabel with h | h | h | h
      · exact hroot h
      · exact hhead h
      · exact hlast h
      · exact hdots (h.trans hpart)
    · rw [hnames, length_labelOctets_pieces]
      rw [length_labelOctets_pieces] at hsize
      have := length_utf8_le_of_isInfix hpart
      omega

/-! ### Names -/

theorem labelText_eq_ok {position : Nat} {octets : List UInt8} {text : String}
    (h : labelText position octets = .ok text) : utf8 text = octets ∧ '.' ∉ text.toList := by
  unfold labelText at h
  split at h
  · cases h
  · next t ht =>
    split at h
    · cases h
    · next hdot =>
      cases pure_eq_ok.1 h
      refine ⟨?_, hdot⟩
      unfold String.fromUTF8? at ht
      split at ht
      · cases ht
        rfl
      · cases ht

theorem labelKind_root {octet : UInt8} (h : labelKind octet = .root) : octet = 0 := by
  unfold labelKind at h
  simp only at h
  split at h
  · next hzero => exact UInt8.toNat_inj.1 hzero
  · repeat' split at h
    all_goals cases h

/-- What a successful reading of a name has met first: the end of the name, a label, or a
pointer. -/
theorem walk_cases {message : List UInt8} {offset start used position next : Nat}
    {labels : List String} (h : walk message offset start used position = .ok (labels, next)) :
    (message[position]? = some 0 ∧ labels = [] ∧ next = position + 1) ∨
    (∃ octets text rest, message[position]? = some (.ofNat octets.length) ∧
      0 < octets.length ∧ octets.length ≤ maxLabel ∧
      (message.drop (position + 1)).take octets.length = octets ∧
      used + octets.length + 1 ≤ maxName ∧ labelText position octets = .ok text ∧
      labels = text :: rest ∧
      walk message offset start (used + octets.length + 1) (position + 1 + octets.length) =
        .ok (rest, next)) ∨
    ∃ octet high low past, message[position]? = some octet ∧ labelKind octet = .pointer high ∧
      message[position + 1]? = some low ∧ high * 256 + low.toNat < start ∧
      walk message offset (high * 256 + low.toNat) used (high * 256 + low.toNat) =
        .ok (labels, past) ∧
      next = position + 2 := by
  rw [walk] at h
  split at h
  · cases h
  · next octet hoctet =>
    split at h
    · next hkind =>
      cases h
      rw [labelKind_root hkind] at hoctet
      exact .inl ⟨hoctet, rfl, rfl⟩
    · cases h
    · next length hkind =>
      obtain ⟨hlength, hpos, hle⟩ := labelKind_label hkind
      simp only at h
      split at h
      · cases h
      · next hlong =>
        split at h
        · cases h
        · next hfit =>
          simp only [bind_eq_ok, pure_eq_ok] at h
          obtain ⟨text, htext, ⟨rest, past⟩, hrest, heq⟩ := h
          cases heq
          have htaken : ((message.drop (position + 1)).take length).length = length :=
            Nat.le_antisymm (List.length_take_le _ _) (Nat.le_of_not_lt hlong)
          refine .inr (.inl ⟨(message.drop (position + 1)).take length, text, rest, ?_, ?_, ?_, ?_,
            ?_, htext, rfl, ?_⟩)
          · rw [htaken, hlength, UInt8.ofNat_toNat]
            exact hoctet
          · rw [htaken]
            exact hpos
          · rw [htaken]
            exact Nat.le_of_lt_succ hle
          · rw [htaken]
          · rw [htaken]
            exact Nat.le_of_not_lt hfit
          · rw [htaken]
            exact hrest
    · next high hkind =>
      split at h
      · cases h
      · next low hlow =>
        simp only at h
        split at h
        · next hback =>
          simp only [bind_eq_ok, pure_eq_ok] at h
          obtain ⟨⟨labels', past⟩, hwalk, heq⟩ := h
          cases heq
          exact .inr (.inr ⟨octet, high, low, past, hoctet, hkind, hlow, hback, hwalk, rfl⟩)
        · cases h

/-- The labels that are read can be written, and they are no longer than what was read as far. -/
theorem walk_eq_ok {message : List UInt8} {offset start used position next : Nat}
    {labels : List String} (h : walk message offset start used position = .ok (labels, next))
    (hused : used ≤ maxName) :
    (∀ label ∈ labels.map String.toList, IsLabel label ∧ '.' ∉ label) ∧
      used + ((labels.map String.toList).flatMap labelOctets).length ≤ maxName := by
  rcases walk_cases h with ⟨-, rfl, -⟩ |
    ⟨octets, text, rest, -, hpos, hle, -, hfit, htext, rfl, hrest⟩ |
    ⟨octet, high, low, past, -, -, -, hback, hwalk, -⟩
  · simpa using hused
  · obtain ⟨hoctets, hdot⟩ := labelText_eq_ok htext
    obtain ⟨hlabels, hsize⟩ := walk_eq_ok hrest hfit
    have hutf8 : utf8 (String.ofList text.toList) = octets := by
      rw [String.ofList_toList, hoctets]
    have hlabel : IsLabel text.toList := by
      refine ⟨?_, hutf8 ▸ hle⟩
      intro hnil
      rw [hnil] at hutf8
      rw [← hutf8] at hpos
      exact Nat.lt_irrefl 0 hpos
    have hlength : (labelOctets text.toList).length = octets.length + 1 := by
      rw [labelOctets, hutf8, List.length_cons]
    rw [List.map_cons, List.forall_mem_cons, List.flatMap_cons, List.length_append, hlength]
    exact ⟨⟨⟨hlabel, hdot⟩, hlabels⟩, by omega⟩
  · exact walk_eq_ok hwalk hused
termination_by (start, labels.length)

/-- What is joined from labels that can be written has no closing dot and can be written. -/
theorem encodeName_of_join {ps : List (List Char)} (hps : ∀ p ∈ ps, IsLabel p ∧ '.' ∉ p)
    (hsize : (ps.flatMap labelOctets).length + 1 ≤ maxName) {text : String}
    (htext : text.toList = Name.join ps) :
    text.toList.getLast? ≠ some '.' ∧ ∃ octets, encodeName text = .ok octets := by
  by_cases hempty : ps = []
  · subst hempty
    obtain rfl : text = "" := String.toList_inj.1 htext
    exact ⟨by simp, [0], rfl⟩
  have hpieces : Name.pieces text.toList = ps := by
    rw [htext, Name.pieces_join hempty fun p hp => (hps p hp).2]
  have hnil : [] ∉ Name.pieces text.toList := by
    rw [hpieces]
    exact fun hmem => (hps [] hmem).1.1 rfl
  rw [Name.nil_mem_pieces, not_or, not_or, not_or] at hnil
  obtain ⟨hroot, -, hlast, -⟩ := hnil
  refine ⟨hlast, _, encodeName_eq_ok.2 ⟨?_, ?_, rfl⟩⟩
  · rw [nameLabels_eq_pieces hroot hlast, hpieces]
    exact fun p hp => (hps p hp).1
  · rwa [nameLabels_eq_pieces hroot hlast, hpieces]

/-- A name that is read has no closing dot and can be written. -/
theorem decodeName_eq_ok {message : List UInt8} {offset next : Nat} {text : String}
    (h : decodeName message offset = .ok (text, next)) :
    text.toList.getLast? ≠ some '.' ∧ ∃ octets, encodeName text = .ok octets := by
  simp only [decodeName, bind_eq_ok, pure_eq_ok, Prod.mk.injEq] at h
  obtain ⟨⟨labels, past⟩, hwalk, htext, -⟩ := h
  obtain ⟨hlabels, hsize⟩ := walk_eq_ok hwalk (by decide)
  refine encodeName_of_join hlabels (by omega) ?_
  rw [← htext, String.toList_ofList]

end Wire

/-! ### Questions and records -/

/-- The question as reading makes it: out of a name that can be written, and out of codes. -/
def Question.IsRead (q : Question) : Prop :=
  (∃ text octets, Wire.encodeName text = .ok octets ∧ text.toList.getLast? ≠ some '.' ∧
    q.name = Name.normalize text) ∧ q.recordType.IsCanonical ∧ q.recordClass.IsCanonical

theorem Question.IsRead.getLast? {q : Question} (h : q.IsRead) :
    q.name.toList.getLast? ≠ some '.' := by
  obtain ⟨⟨text, octets, hwritten, hdot, hname⟩, -⟩ := h
  rw [hname]
  exact Wire.getLast?_normalize_ne_dot (Wire.dots_not_infix_of_encodeName hwritten hdot)

/-- What normalisation has left of a name can be written unless it starts with a dot. -/
theorem Question.IsRead.encodeName_iff {q : Question} (h : q.IsRead) :
    (∃ octets, Wire.encodeName q.name = .ok octets) ↔ q.name.toList.head? ≠ some '.' := by
  obtain ⟨⟨text, octets, hwritten, hdot, hname⟩, -⟩ := h
  rw [hname]
  exact Wire.encodeName_normalize hwritten hdot

/-- What normalisation has left of a name is final unless it ends in a blank. -/
theorem Question.IsRead.normalize_iff {q : Question} (h : q.IsRead) :
    Name.normalize q.name = q.name ↔ ∀ c ∈ q.name.toList.getLast?, Text.isBlank c = false := by
  have hlast := h.getLast?
  obtain ⟨⟨text, octets, hwritten, hdot, hname⟩, -⟩ := h
  have hhead := Name.head?_normalize text
  rw [← hname] at hhead
  rw [Name.normalize_eq_self_iff, and_iff_right hhead]
  constructor
  · exact fun h c hc => (h c hc).1
  · intro h c hc
    refine ⟨h c hc, ?_⟩
    rintro rfl
    exact hlast hc

/-- The record as reading makes it: its data is what its type demands and can be written. -/
structure Record.IsRead (now : Instant) (r : Record) : Prop where
  question : r.question.IsRead
  suits : r.data.suits r.recordType = true
  undotted : r.data.isUndotted = true
  writable : ∃ octets, Wire.encodeData r = .ok octets ∧ octets.length ≤ 65535
  learned : r.relearned now = r

namespace Wire

theorem takeQuestion_eq_ok {message : List UInt8} {position next : Nat} {q : Question}
    (h : takeQuestion message position = .ok (q, next)) : q.IsRead := by
  simp only [takeQuestion, bind_eq_ok, pure_eq_ok, Prod.mk.injEq] at h
  obtain ⟨⟨text, p⟩, htext, ⟨recordType, p'⟩, -, ⟨recordClass, p''⟩, -, hq, -⟩ := h
  subst hq
  obtain ⟨hdot, octets, hwritten⟩ := decodeName_eq_ok htext
  exact ⟨⟨text, octets, hwritten, hdot, rfl⟩, RecordType.isCanonical_ofCode _,
    RecordClass.isCanonical_ofCode _⟩

theorem addressOfSize?_eq_some {size : Nat} {data : List UInt8} {ip : Address}
    (h : addressOfSize? size data = some ip) : ip.octets = data ∧ data.length = size := by
  unfold addressOfSize? at h
  split at h
  · next hsize => exact ⟨Address.octets_of_ofOctets? h, hsize⟩
  · cases h

theorem length_take_eq {message octets : List UInt8} {length position next : Nat}
    (h : take message length position = .ok (octets, next)) : octets.length = length := by
  unfold take at h
  split at h
  · cases h
  · next hfit =>
    cases h
    rw [List.length_take, List.length_drop]
    omega

theorem length_encodeName_le {text : String} {octets : List UInt8}
    (h : encodeName text = .ok octets) : octets.length ≤ maxName := by
  obtain ⟨-, hsize, rfl⟩ := encodeName_eq_ok.1 h
  rwa [List.length_append, List.length_singleton]

theorem digitChar_mem_lowerDigits : ∀ n < 16, Text.Hex.digitChar n ∈ Text.Hex.lowerDigits := by
  decide

theorem isPlain_encode (octets : List UInt8) :
    Text.Hex.isPlain (Text.Hex.encode octets) = true := by
  rw [Text.Hex.isPlain, Text.Hex.toList_encode, Bool.and_eq_true, beq_iff_eq, List.all_eq_true]
  induction octets with
  | nil => simp
  | cons b octets ih =>
    obtain ⟨hlength, hdigits⟩ := ih
    have hb : b.toNat < 256 := b.toNat_lt
    have hpair : ∀ c ∈ Text.Hex.pair b, Text.Hex.lowerDigits.contains c = true := by
      simp only [Text.Hex.pair, List.mem_cons, List.not_mem_nil, or_false, List.contains_iff_mem]
      rintro c (rfl | rfl)
      · exact digitChar_mem_lowerDigits _ (by omega)
      · exact digitChar_mem_lowerDigits _ (by omega)
    have hsize : (Text.Hex.pair b).length = 2 := rfl
    rw [Text.Hex.encodeChars_cons, List.length_append, hsize, List.forall_mem_append]
    exact ⟨by omega, hpair, hdigits⟩

/-- Data is read as an address of the family of its type, as a name that starts where its type has
one, or as it stands. -/
theorem decodeData_cases {message octets : List UInt8} {q : Question} {position : Nat}
    {data : Rdata} (h : decodeData message q position octets = .ok data) :
    (∃ ip, data = .address ip ∧ ip.octets = octets ∧
      (q.recordType = .a ∧ ip.isV4 = true ∨ q.recordType = .aaaa ∧ ip.isV4 = false)) ∨
    (∃ target next, data = .name target ∧ q.recordType.carriesName = true ∧
      ¬(q.recordType = .mx ∧ octets.length < 3) ∧
      decodeName message (position + nameOffset q.recordType) = .ok (target, next) ∧
      next ≤ position + octets.length) ∨
    data = .octets (Text.Hex.encode octets) ∧ q.recordType.isAddress = false ∧
      q.recordType.carriesName = false := by
  have hfamily : ∀ {size : Nat} {ip : Address}, addressOfSize? size octets = some ip →
      ip.octets = octets ∧ (if ip.isV4 then 4 else 16) = size := by
    intro size ip hip
    obtain ⟨hoctets, hsize⟩ := addressOfSize?_eq_some hip
    exact ⟨hoctets, by rw [← length_octets, hoctets, hsize]⟩
  unfold decodeData at h
  cases ht : q.recordType with
  | a =>
    rw [ht] at h
    simp only at h
    split at h
    · next ip hip =>
      cases pure_eq_ok.1 h
      obtain ⟨hoctets, hsize⟩ := hfamily hip
      exact .inl ⟨ip, rfl, hoctets, .inl ⟨rfl, by simpa using hsize⟩⟩
    · cases h
  | aaaa =>
    rw [ht] at h
    simp only at h
    split at h
    · next ip hip =>
      cases pure_eq_ok.1 h
      obtain ⟨hoctets, hsize⟩ := hfamily hip
      exact .inl ⟨ip, rfl, hoctets, .inr ⟨rfl, by simpa using hsize⟩⟩
    · cases h
  | ns | cname | mx =>
    rw [ht] at h
    dsimp only at h
    split at h
    · cases h
    · next hshort =>
      simp only [bind_eq_ok] at h
      obtain ⟨⟨target, next⟩, htarget, h⟩ := h
      split at h
      · cases h
      · next hover =>
        cases pure_eq_ok.1 h
        exact .inr (.inl ⟨target, next, rfl, rfl, hshort, htarget, Nat.le_of_not_lt hover⟩)
  | _ =>
    rw [ht] at h
    cases pure_eq_ok.1 h
    exact .inr (.inr ⟨rfl, rfl, rfl⟩)

/-- Data that is read suits its type and can be written. -/
theorem decodeData_eq_ok {message octets : List UInt8} {position : Nat} {r : Record}
    (h : decodeData message r.question position octets = .ok r.data)
    (hsize : octets.length ≤ 65535) :
    r.data.suits r.recordType = true ∧ r.data.isUndotted = true ∧
      ∃ written, encodeData r = .ok written ∧ written.length ≤ 65535 := by
  unfold encodeData
  rcases decodeData_cases h with ⟨ip, hdata, hoctets, htype⟩ |
    ⟨target, next, hdata, htype, -, htarget, -⟩ | ⟨hdata, haddress, hname⟩
  · rw [hdata]
    refine ⟨?_, rfl, octets, congrArg Except.ok hoctets, hsize⟩
    rcases htype with ⟨ht, hfamily⟩ | ⟨ht, hfamily⟩
    · simp [Rdata.suits, Record.recordType, ht, hfamily]
    · simp [Rdata.suits, Record.recordType, ht, hfamily]
  · rw [hdata]
    obtain ⟨hdot, written, hwritten⟩ := decodeName_eq_ok htarget
    refine ⟨htype, bne_iff_ne.2 hdot, namePreamble r.recordType ++ written, ?_, ?_⟩
    · simp only [hwritten]
      rfl
    · have hpreamble : (namePreamble r.recordType).length ≤ 2 := by
        unfold namePreamble
        split <;> simp
      have := length_encodeName_le hwritten
      unfold maxName at this
      rw [List.length_append]
      omega
  · rw [hdata]
    refine ⟨?_, rfl, octets, ?_, hsize⟩
    · simp [Rdata.suits, Record.recordType, haddress, hname, isPlain_encode]
    · simp only [Text.Hex.decode?_encode]
      rfl

theorem takeRecord_eq_ok {now : Instant} {message : List UInt8} {position next : Nat} {r : Record}
    (h : takeRecord now message position = .ok (r, next)) : r.IsRead now := by
  simp only [takeRecord, bind_eq_ok, pure_eq_ok, Prod.mk.injEq] at h
  obtain ⟨⟨q, p⟩, hq, ⟨ttl, p'⟩, -, ⟨length, p''⟩, -, ⟨octets, past⟩, htake, data, hdata, hr, -⟩ :=
    h
  subst hr
  have hsize : octets.length ≤ 65535 := by
    rw [length_take_eq htake]
    exact Nat.le_of_lt_succ length.toNat_lt
  obtain ⟨hsuits, hundotted, hwritable⟩ :=
    decodeData_eq_ok (r := .learned now q ttl data) hdata hsize
  exact ⟨takeQuestion_eq_ok hq, hsuits, hundotted, hwritable, rfl⟩

/-! ### Messages -/

/-- Things read in a row are as many as the count says, and each is as reading makes it. -/
theorem takeMany_eq_ok {α : Type} {takeOne : Nat → Except Fault (α × Nat)} {p : α → Prop}
    (hone : ∀ position x next, takeOne position = .ok (x, next) → p x) {count position next : Nat}
    {xs : List α} (h : takeMany takeOne count position = .ok (xs, next)) :
    xs.length = count ∧ ∀ x ∈ xs, p x := by
  induction count generalizing position xs next with
  | zero =>
    cases h
    exact ⟨rfl, by simp⟩
  | succ count ih =>
    simp only [takeMany, bind_eq_ok, pure_eq_ok, Prod.mk.injEq] at h
    obtain ⟨⟨x, p⟩, hx, ⟨ys, past⟩, hys, rfl, -⟩ := h
    obtain ⟨hlength, hall⟩ := ih hys
    rw [List.length_cons, hlength, List.forall_mem_cons]
    exact ⟨rfl, hone _ _ _ hx, hall⟩

/-- What a message that is read is made of. -/
theorem decode_eq_ok {now : Instant} {message : List UInt8} {m : Message}
    (h : decode now message = .ok m) :
    ∃ (flags questionCount answerCount authorityCount additionalCount : UInt16)
      (questions : List Question) (p₀ p₁ p₂ p₃ p₄ : Nat),
      takeMany (takeQuestion message) questionCount.toNat p₀ = .ok (questions, p₁) ∧
      takeMany (takeRecord now message) answerCount.toNat p₁ = .ok (m.answers, p₂) ∧
      takeMany (takeRecord now message) authorityCount.toNat p₂ = .ok (m.authorities, p₃) ∧
      takeMany (takeRecord now message) additionalCount.toNat p₃ = .ok (m.additionals, p₄) ∧
      m.flags = .ofWord flags ∧ m.question = questions.head? := by
  unfold decode at h
  split at h
  · cases h
  · simp only [bind_eq_ok] at h
    obtain ⟨_, -, ⟨flags, _⟩, -, ⟨qc, _⟩, -, ⟨an, _⟩, -, ⟨ns, _⟩, -, ⟨ar, p₀⟩, -, h⟩ := h
    split at h
    · cases h
    · simp only [bind_eq_ok, pure_eq_ok] at h
      obtain ⟨⟨questions, p₁⟩, hq, ⟨answers, p₂⟩, han, ⟨authorities, p₃⟩, hns,
        ⟨additionals, p₄⟩, har, rfl⟩ := h
      exact ⟨flags, qc, an, ns, ar, questions, p₀, p₁, p₂, p₃, p₄, hq, han, hns, har, rfl, rfl⟩

end Wire

theorem Flags.fits_ofWord (w : UInt16) : (ofWord w).Fits := by
  have hop : w.toNat / 0x0800 % 16 < 16 := Nat.mod_lt _ (by decide)
  have hr : w.toNat % 16 < 16 := Nat.mod_lt _ (by decide)
  constructor
  · show (UInt8.ofNat _).toNat < 16
    rw [UInt8.toNat_ofNat']
    omega
  · show (UInt8.ofNat _).toNat < 16
    rw [UInt8.toNat_ofNat']
    omega

/-- The message as reading makes it at an instant. -/
structure Message.IsRead (now : Instant) (m : Message) : Prop where
  flags : m.flags.Fits
  question : ∀ q ∈ m.question.toList, q.IsRead
  records : ∀ r ∈ m.allRecords, r.IsRead now
  answers : m.answers.length ≤ 65535
  authorities : m.authorities.length ≤ 65535
  additionals : m.additionals.length ≤ 65535

namespace Wire

theorem isRead_of_decode {now : Instant} {octets : List UInt8} {m : Message}
    (h : decode now octets = .ok m) : m.IsRead now := by
  obtain ⟨flags, qc, an, ns, ar, questions, p₀, p₁, p₂, p₃, p₄, hq, han, hns, har, hflags,
    hquestion⟩ := decode_eq_ok h
  have hcount : ∀ {n : UInt16} {rs : List Record}, rs.length = n.toNat → rs.length ≤ 65535 := by
    intro n rs hlength
    rw [hlength]
    exact Nat.le_of_lt_succ n.toNat_lt
  obtain ⟨-, hquestions⟩ := takeMany_eq_ok (fun _ _ _ => takeQuestion_eq_ok) hq
  obtain ⟨hanLength, hanswers⟩ := takeMany_eq_ok (fun _ _ _ => takeRecord_eq_ok) han
  obtain ⟨hnsLength, hauthorities⟩ := takeMany_eq_ok (fun _ _ _ => takeRecord_eq_ok) hns
  obtain ⟨harLength, hadditionals⟩ := takeMany_eq_ok (fun _ _ _ => takeRecord_eq_ok) har
  refine ⟨hflags ▸ Flags.fits_ofWord flags, ?_, ?_, hcount hanLength, hcount hnsLength,
    hcount harLength⟩
  · intro q hmem
    rw [hquestion, Option.mem_toList] at hmem
    exact hquestions q (List.mem_of_mem_head? hmem)
  · simp only [Message.allRecords, List.mem_append, or_imp, forall_and]
    exact ⟨⟨hanswers, hauthorities⟩, hadditionals⟩

end Wire

end IterativeDns
