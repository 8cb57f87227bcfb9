import IterativeDns.Proofs.Wire.Fields

/-!
# Names written and read

Which names can be written (`encodeName_eq_ok`), and that a written name is read wherever it
stands (`decodeName_of_hasAt`). A written name has no pointers, so it is read label by label; what
has to be known of its labels is that they are short enough and hold no dot.
-/

namespace IterativeDns

namespace Name

/-! ### Closing dots -/

theorem stripDot_eq_self {s : String} (h : s.toList.getLast? ≠ some '.') : stripDot s = s := by
  rw [stripDot, stripDotChars, if_neg h, String.ofList_toList]

theorem length_stripDotChars_le (cs : List Char) : (stripDotChars cs).length ≤ cs.length := by
  unfold stripDotChars
  split
  · rw [List.length_dropLast]
    exact Nat.sub_le _ _
  · exact Nat.le_refl _

/-- A name that normalisation leaves alone has no closing dot. -/
theorem getLast?_ne_dot_of_normalize_eq {s : String} (h : normalize s = s) :
    s.toList.getLast? ≠ some '.' := by
  intro hdot
  have hchars : stripDotChars (Text.trimChars s.toList) = s.toList := by
    rw [← toList_normalize, h]
  have hsublist : (Text.trimChars s.toList).Sublist s.toList :=
    (Text.trimEndChars_isPrefix _).sublist.trans (List.dropWhile_sublist _)
  have hlength : s.toList.length ≤ (Text.trimChars s.toList).length := by
    have := length_stripDotChars_le (Text.trimChars s.toList)
    rwa [hchars] at this
  -- nothing was trimmed, so a closing dot would have been taken off
  rw [hsublist.eq_of_length_le hlength, stripDotChars, if_pos hdot] at hchars
  have hpos : s.toList ≠ [] := by
    rintro hnil
    rw [hnil] at hdot
    cases hdot
  have := congrArg List.length hchars
  rw [List.length_dropLast] at this
  have := List.length_pos_iff.2 hpos
  omega

/-! ### Labels -/

theorem dot_not_mem_pieces {cs p : List Char} (h : p ∈ pieces cs) : '.' ∉ p := by
  induction cs generalizing p with
  | nil =>
    rw [pieces, List.mem_singleton] at h
    rw [h]
    exact List.not_mem_nil
  | cons c cs ih =>
    rw [pieces] at h
    split at h
    · rcases List.mem_cons.1 h with rfl | h
      · exact List.not_mem_nil
      · exact ih h
    · next hc =>
      split at h
      · next hnil => exact absurd hnil (pieces_ne_nil cs)
      · next q qs hpieces =>
        rcases List.mem_cons.1 h with rfl | h
        · rw [List.mem_cons, not_or]
          exact ⟨fun h => hc h.symm, ih (hpieces ▸ List.mem_cons_self)⟩
        · exact ih (hpieces ▸ List.mem_cons_of_mem _ h)

end Name

namespace Wire

/-! ### Texts and their octets -/

theorem fromUTF8?_utf8 (s : String) : String.fromUTF8? ⟨(utf8 s).toArray⟩ = some s := by
  rw [utf8, Array.toArray_toList]
  exact dif_pos s.isValidUTF8

theorem utf8_eq_nil_iff {s : String} : utf8 s = [] ↔ s = "" := by
  rw [← List.length_eq_zero_iff, ← String.utf8ByteSize_eq_zero_iff]
  rfl

/-! ### Writing -/

/-- The labels a name is written with; the root has none. -/
def nameLabels (text : String) : List (List Char) :=
  let cs := Name.stripDotChars text.toList
  if cs = [] then [] else Name.pieces cs

theorem dot_not_mem_of_mem_nameLabels {text : String} {label : List Char}
    (h : label ∈ nameLabels text) : '.' ∉ label := by
  simp only [nameLabels] at h
  split at h
  · cases h
  · exact Name.dot_not_mem_pieces h

theorem join_nameLabels (text : String) :
    Name.join (nameLabels text) = Name.stripDotChars text.toList := by
  simp only [nameLabels]
  split
  · next hroot =>
    rw [hroot]
    rfl
  · exact Name.join_pieces _

/-- The text can be written as a label. -/
def IsLabel (label : List Char) : Prop :=
  label ≠ [] ∧ (utf8 (String.ofList label)).length ≤ maxLabel

/-- A label after its length. -/
def labelOctets (label : List Char) : List UInt8 :=
  .ofNat (utf8 (String.ofList label)).length :: utf8 (String.ofList label)

theorem encodeLabel_eq_ok {name : String} {label : List Char} {octets : List UInt8} :
    encodeLabel name label = .ok octets ↔ IsLabel label ∧ octets = labelOctets label := by
  unfold encodeLabel IsLabel
  by_cases hnil : label = []
  · simp [hnil, throw, throwThe, MonadExceptOf.throw]
  · by_cases hlong : maxLabel < (utf8 (String.ofList label)).length
    · simp [hnil, hlong, Nat.not_le.2 hlong, throw, throwThe, MonadExceptOf.throw]
    · simp only [hnil, hlong, if_false, pure_eq_ok, ne_eq, not_false_eq_true, true_and,
        Nat.le_of_not_lt hlong, eq_comm (a := octets)]
      rfl

theorem mapM_encodeLabel_eq_ok {name : String} {labels : List (List Char)}
    {parts : List (List UInt8)} :
    labels.mapM (encodeLabel name) = .ok parts ↔
      (∀ label ∈ labels, IsLabel label) ∧ parts = labels.map labelOctets := by
  induction labels generalizing parts with
  | nil =>
    rw [List.mapM_nil, pure_eq_ok, eq_comm]
    simp
  | cons label labels ih =>
    simp only [List.mapM_cons, bind_eq_ok, pure_eq_ok, encodeLabel_eq_ok, ih, List.mem_cons,
      forall_eq_or_imp, List.map_cons]
    constructor
    · intro h
      obtain ⟨_, ⟨hlabel, rfl⟩, _, ⟨hlabels, rfl⟩, rfl⟩ := h
      exact ⟨⟨hlabel, hlabels⟩, rfl⟩
    · intro h
      obtain ⟨⟨hlabel, hlabels⟩, rfl⟩ := h
      exact ⟨_, ⟨hlabel, rfl⟩, _, ⟨hlabels, rfl⟩, rfl⟩

/-- A name can be written if its labels can be and it is not too long; then it is its labels and
a zero. -/
theorem encodeName_eq_ok {text : String} {octets : List UInt8} :
    encodeName text = .ok octets ↔
      (∀ label ∈ nameLabels text, IsLabel label) ∧
        ((nameLabels text).flatMap labelOctets).length + 1 ≤ maxName ∧
        octets = (nameLabels text).flatMap labelOctets ++ [0] := by
  have hlabels : ∀ {written : List UInt8},
      encodeLabels (Name.stripDot text) = .ok written ↔
        (∀ label ∈ nameLabels text, IsLabel label) ∧
          written = (nameLabels text).flatMap labelOctets := by
    intro written
    unfold encodeLabels nameLabels
    rw [Name.toList_stripDot]
    simp only
    split
    · rw [pure_eq_ok, eq_comm]
      simp
    · simp only [bind_eq_ok, pure_eq_ok, mapM_encodeLabel_eq_ok, List.flatMap_def]
      constructor
      · intro h
        obtain ⟨_, ⟨h, rfl⟩, rfl⟩ := h
        exact ⟨h, rfl⟩
      · intro h
        obtain ⟨h, rfl⟩ := h
        exact ⟨_, ⟨h, rfl⟩, rfl⟩
  simp only [encodeName, bind_eq_ok, hlabels]
  constructor
  · intro h
    obtain ⟨_, ⟨h, rfl⟩, hlength⟩ := h
    split at hlength
    · cases hlength
    · next hle => exact ⟨h, Nat.le_of_not_lt hle, (pure_eq_ok.1 hlength).symm⟩
  · intro h
    obtain ⟨h, hle, rfl⟩ := h
    exact ⟨_, ⟨h, rfl⟩, if_neg (Nat.not_lt.2 hle)⟩

/-! ### Reading -/

theorem labelKind_ofNat {n : Nat} (hpos : 0 < n) (hle : n ≤ maxLabel) :
    labelKind (.ofNat n) = .label n := by
  unfold maxLabel at hle
  have hn : (UInt8.ofNat n).toNat = n := by
    rw [UInt8.toNat_ofNat']
    omega
  simp only [labelKind, hn]
  rw [if_neg (by omega), if_pos (by omega)]

theorem labelText_utf8 {label : List Char} (hdot : '.' ∉ label) (position : Nat) :
    labelText position (utf8 (String.ofList label)) = .ok (String.ofList label) := by
  rw [labelText, fromUTF8?_utf8]
  simp only [String.toList_ofList]
  rw [if_neg hdot]
  rfl

theorem walk_root {message : List UInt8} {offset start used position : Nat}
    (h : message[position]? = some 0) :
    walk message offset start used position = .ok ([], position + 1) := by
  rw [walk]
  split
  · next hnone =>
    rw [h] at hnone
    cases hnone
  · next octet hsome =>
    rw [h] at hsome
    cases hsome
    rfl

theorem walk_label {message octets : List UInt8} {offset start used position : Nat} {text : String}
    (h : message[position]? = some (.ofNat octets.length)) (hpos : 0 < octets.length)
    (hle : octets.length ≤ maxLabel)
    (htake : (message.drop (position + 1)).take octets.length = octets)
    (hused : used + octets.length + 1 ≤ maxName) (htext : labelText position octets = .ok text) :
    walk message offset start used position =
      (walk message offset start (used + octets.length + 1) (position + 1 + octets.length)).map
        fun r => (text :: r.1, r.2) := by
  rw [walk]
  split
  · next hnone =>
    rw [h] at hnone
    cases hnone
  · next octet hsome =>
    rw [h] at hsome
    cases hsome
    rw [labelKind_ofNat hpos hle]
    simp only [htake, Nat.lt_irrefl, if_false, Nat.not_lt.2 hused, htext]
    cases walk message offset start (used + octets.length + 1) (position + 1 + octets.length) <;>
      rfl

theorem walk_pointer {message : List UInt8} {offset start used position high : Nat}
    {octet low : UInt8} (h : message[position]? = some octet)
    (hkind : labelKind octet = .pointer high) (hlow : message[position + 1]? = some low)
    (hback : high * 256 + low.toNat < start) :
    walk message offset start used position =
      (walk message offset (high * 256 + low.toNat) used (high * 256 + low.toNat)).map
        fun r => (r.1, position + 2) := by
  rw [walk]
  split
  · next hnone =>
    rw [h] at hnone
    cases hnone
  · next first hsome =>
    rw [h] at hsome
    cases hsome
    simp only [hkind, hlow, if_pos hback]
    cases walk message offset (high * 256 + low.toNat) used (high * 256 + low.toNat) <;> rfl

/-- Labels that stand one after the other are read one after the other. -/
theorem walk_labels {message : List UInt8} {offset start : Nat} {labels : List (List Char)}
    (hlabels : ∀ label ∈ labels, IsLabel label ∧ '.' ∉ label) {used position : Nat}
    (h : HasAt message position (labels.flatMap labelOctets))
    (hused : used + (labels.flatMap labelOctets).length ≤ maxName) :
    walk message offset start used position =
      (walk message offset start (used + (labels.flatMap labelOctets).length)
        (position + (labels.flatMap labelOctets).length)).map
        fun r => (labels.map String.ofList ++ r.1, r.2) := by
  induction labels generalizing used position with
  | nil =>
    show _ = (walk message offset start used position).map fun r => ([] ++ r.1, r.2)
    cases walk message offset start used position <;> rfl
  | cons label labels ih =>
    obtain ⟨⟨⟨hne, hle⟩, hdot⟩, hrest⟩ := List.forall_mem_cons.1 hlabels
    rw [List.flatMap_cons, hasAt_append] at h
    obtain ⟨hfirst, hmore⟩ := h
    obtain ⟨hoctet, htext⟩ := hasAt_cons.1 hfirst
    have hpos : 0 < (utf8 (String.ofList label)).length := by
      rw [List.length_pos_iff, Ne, utf8_eq_nil_iff]
      intro hempty
      exact hne (by rw [← String.toList_ofList (l := label), hempty]; rfl)
    have hlength : (labelOctets label).length = (utf8 (String.ofList label)).length + 1 := rfl
    rw [List.flatMap_cons, List.length_append, hlength] at hused ⊢
    have hnext : position + (labelOctets label).length =
        position + 1 + (utf8 (String.ofList label)).length := by omega
    rw [hnext] at hmore
    -- one label is read, and what the induction needs to know moves on by its length
    rw [walk_label hoctet hpos hle htext.take_drop (by omega) (labelText_utf8 hdot position),
      ih hrest hmore (by omega)]
    have hplace : position + ((utf8 (String.ofList label)).length + 1
        + (labels.flatMap labelOctets).length) = position + 1
        + (utf8 (String.ofList label)).length + (labels.flatMap labelOctets).length := by omega
    rw [hplace, ← Nat.add_assoc, ← Nat.add_assoc]
    cases walk message offset start _ _ <;> rfl

/-- Written labels are read, whatever surrounds them. -/
theorem walk_of_hasAt {message : List UInt8} {offset start : Nat} {labels : List (List Char)}
    (hlabels : ∀ label ∈ labels, IsLabel label ∧ '.' ∉ label) {used position : Nat}
    (h : HasAt message position (labels.flatMap labelOctets ++ [0]))
    (hused : used + (labels.flatMap labelOctets).length ≤ maxName) :
    walk message offset start used position =
      .ok (labels.map String.ofList, position + (labels.flatMap labelOctets).length + 1) := by
  obtain ⟨hfirst, hend⟩ := hasAt_append.1 h
  rw [walk_labels hlabels hfirst hused, walk_root hend.getElem?]
  simp [Except.map]

/-- A written name is read, whatever surrounds it; its closing dot is lost. -/
theorem decodeName_of_hasAt {text : String} {octets message : List UInt8} {position : Nat}
    (hencode : encodeName text = .ok octets) (h : HasAt message position octets) :
    decodeName message position = .ok (Name.stripDot text, position + octets.length) := by
  obtain ⟨hlabels, hlength, rfl⟩ := encodeName_eq_ok.1 hencode
  have hall : ∀ label ∈ nameLabels text, IsLabel label ∧ '.' ∉ label :=
    fun label hlabel => ⟨hlabels label hlabel, dot_not_mem_of_mem_nameLabels hlabel⟩
  have hwalk : walk message position position 1 position = _ :=
    walk_of_hasAt hall h (by omega)
  have hjoin : ((nameLabels text).map String.ofList).map String.toList = nameLabels text := by
    simp [Function.comp_def]
  rw [decodeName, hwalk, List.length_append, ← Nat.add_assoc]
  show Except.ok (String.ofList (Name.join _), _) = _
  rw [hjoin, join_nameLabels]
  rfl

end Wire

end IterativeDns
