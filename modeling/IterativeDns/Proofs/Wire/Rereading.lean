import IterativeDns.Proofs.Wire.Decoded

/-!
# Messages read again

What is written is read with one difference: the names of owners go through normalisation on the
way (`decode_encode_reread`). Whether a message comes back as it was is therefore a matter of its
names alone (`Message.reread_eq_relearned_iff`).

* `decode_encodeQuery`: a query for a text comes back as the query that was meant exactly if one
  pass of normalisation settles the text (`Name.closesLoosely`).
* `encode_reread_iff`: a message that was read can be written and comes back as it was exactly if
  none of its names starts with a dot or ends in a blank (`Name.isTight`). A hostile server can
  send others, since labels may hold blanks: those at the ends of a name are taken off, and what
  is left may have an empty label or may not be final.
-/

namespace IterativeDns

/-! ### Names that come back -/

/-- The name neither starts with a dot nor ends in a blank. -/
def Name.isTight (name : String) : Bool :=
  name.toList.head? != some '.' && name.toList.getLast?.all fun c => !Text.isBlank c

/-- A question that was read comes back as it was exactly if its name is tight: a dot in front
keeps it from being written, and a blank at the end is lost. -/
theorem Question.IsRead.isTight_iff {q : Question} (h : q.IsRead) :
    Name.isTight q.name = true ↔
      (∃ octets, Wire.encodeName q.name = .ok octets) ∧ q.reread = q := by
  have hreread : q.reread = q ↔ Name.normalize q.name = q.name := by
    rw [← Name.normalize_stripDot_iff]
    obtain ⟨name, recordType, recordClass⟩ := q
    simp [reread, ofText]
  rw [hreread, h.encodeName_iff, h.normalize_iff, Name.isTight, Bool.and_eq_true, bne_iff_ne]
  cases q.name.toList.getLast? <;> simp

theorem Question.IsRead.isTyped {q : Question} (h : q.IsRead) : q.IsTyped :=
  h.2

theorem Record.IsRead.isTyped {now : Instant} {r : Record} (h : r.IsRead now) : r.IsTyped :=
  ⟨h.question.2, h.suits, h.undotted⟩

theorem Message.IsRead.owners {now : Instant} {m : Message} (h : m.IsRead now) :
    ∀ q ∈ m.owners, q.IsRead :=
  forall_owners.2 ⟨h.question, fun r hr => (h.records r hr).question⟩

namespace Wire

theorem exists_encodeQuestion_iff {q : Question} :
    (∃ octets, encodeQuestion q = .ok octets) ↔ ∃ octets, encodeName q.name = .ok octets := by
  simp only [encodeQuestion_eq_ok]
  constructor
  · intro h
    obtain ⟨_, name, hname, -⟩ := h
    exact ⟨name, hname⟩
  · intro h
    obtain ⟨name, hname⟩ := h
    exact ⟨_, name, hname, rfl⟩

/-- A record that was read can be written if the name of its owner can be. -/
theorem exists_encodeRecord_iff {now : Instant} {r : Record} (h : r.IsRead now) :
    (∃ octets, encodeRecord r = .ok octets) ↔
      ∃ octets, encodeName r.question.name = .ok octets := by
  rw [← exists_encodeQuestion_iff]
  simp only [encodeRecord_eq_ok]
  obtain ⟨data, hdata, hsize⟩ := h.writable
  constructor
  · intro h
    obtain ⟨_, owner, _, howner, -⟩ := h
    exact ⟨owner, howner⟩
  · intro h
    obtain ⟨owner, howner⟩ := h
    exact ⟨_, owner, data, howner, hdata, hsize, rfl⟩

/-- A message that was read can be written if the names of all owners can be. -/
theorem exists_encode_iff {now : Instant} {m : Message} (h : m.IsRead now) :
    (∃ octets, encode m = .ok octets) ↔
      ∀ q ∈ m.owners, ∃ octets, encodeName q.name = .ok octets := by
  have hrecords : (∃ octets, encodeRecords m.allRecords = .ok octets) ↔
      ∀ r ∈ m.allRecords, ∃ octets, encodeName r.question.name = .ok octets := by
    rw [exists_encodeRecords_iff]
    exact forall₂_congr fun r hr => exists_encodeRecord_iff (h.records r hr)
  have hquestion : (∃ octets, encodeQuestion? m.question = .ok octets) ↔
      ∀ q ∈ m.question.toList, ∃ octets, encodeName q.name = .ok octets := by
    cases m.question with
    | none => simp [encodeQuestion?, pure_eq_ok]
    | some q => simp [encodeQuestion?, exists_encodeQuestion_iff]
  rw [Message.forall_owners, ← hrecords, ← hquestion]
  constructor
  · intro hencode
    obtain ⟨octets, hencode⟩ := hencode
    obtain ⟨question, records, hq, hr, -⟩ := encode_eq_ok hencode
    exact ⟨⟨question, hq⟩, records, hr⟩
  · intro hparts
    obtain ⟨⟨question, hq⟩, records, hr⟩ := hparts
    simp only [encode, bind_eq_ok, pure_eq_ok, encodeCount_eq_ok]
    exact ⟨_, _, ⟨h.answers, rfl⟩, _, ⟨h.authorities, rfl⟩, _, ⟨h.additionals, rfl⟩, question, hq,
      records, hr, rfl⟩

end Wire

/-- Learning the records of a message again at the instant when they were learned changes
nothing. -/
theorem Message.IsRead.relearned_eq {now : Instant} {m : Message} (h : m.IsRead now) :
    m.relearned now = m := by
  have hrecords := fun r hr => (h.records r hr).learned
  simp only [allRecords, List.mem_append, or_imp, forall_and] at hrecords
  obtain ⟨⟨hanswers, hauthorities⟩, hadditionals⟩ := hrecords
  have hkeep : ∀ {rs : List Record}, (∀ r ∈ rs, r.relearned now = r) →
      rs.map (Record.relearned now) = rs :=
    fun hrs => (List.map_congr_left hrs).trans (List.map_id _)
  rw [relearned, hkeep hanswers, hkeep hauthorities, hkeep hadditionals]

namespace Wire

/-- A query is read as the query for its question, the name of which is normalised. -/
theorem decode_encodeQuery_reread {q : Question} {id : UInt16} {octets : List UInt8}
    (hq : q.IsTyped) (h : encodeQuery q id = .ok octets) (now : Instant) :
    decode now octets = .ok (.query q.reread id) := by
  refine decode_encode_reread now Flags.fits_default ?_ ?_ h
  · intro p hp
    obtain rfl : p = q := by simpa [Message.query] using hp
    exact hq
  · intro r hr
    simp [Message.query, Message.allRecords] at hr

/-! ### Main results -/

/-- A query for a text is read as the query for its question with the name normalised again, and
that is the query that was written exactly if the text does not close loosely. -/
theorem decode_encodeQuery {text : String} {recordType : RecordType} {recordClass : RecordClass}
    {id : UInt16} {octets : List UInt8} (htype : recordType.IsCanonical)
    (hclass : recordClass.IsCanonical)
    (h : encodeQuery (.ofText text recordType recordClass) id = .ok octets) (now : Instant) :
    decode now octets = .ok (.query (Question.ofText text recordType recordClass).reread id) ∧
      (decode now octets = .ok (.query (.ofText text recordType recordClass) id) ↔
        Name.closesLoosely text = false) := by
  have hread := decode_encodeQuery_reread (q := .ofText text recordType recordClass)
    ⟨htype, hclass⟩ h now
  refine ⟨hread, ?_⟩
  rw [hread, ← Name.normalize_normalize_iff, ← Name.normalize_stripDot_iff]
  simp [Message.query, Question.reread, Question.ofText]

theorem blanks_around_text_are_settled :
    ∃ octets, encodeQuery (.ofText " WWW.Example.com. " (.other 99) .ch) 7 = .ok octets ∧
      decode 5 octets = .ok (.query ⟨"WWW.Example.com", .other 99, .ch⟩ 7) := by
  have hwritten : (encodeQuery (.ofText " WWW.Example.com. " (.other 99) .ch) 7).toBool = true := by
    decide +kernel
  cases hencode : encodeQuery (.ofText " WWW.Example.com. " (.other 99) .ch) 7 with
  | error fault =>
    rw [hencode] at hwritten
    cases hwritten
  | ok octets =>
    exact ⟨octets, rfl, (decode_encodeQuery (by decide) (by decide) hencode 5).2.2 (by decide)⟩

/-- A query for `example.com`. -/
def plainQuery : List UInt8 :=
  [0, 7, 0, 0, 0, 1, 0, 0, 0, 0, 0, 0] ++
    [7, 101, 120, 97, 109, 112, 108, 101, 3, 99, 111, 109, 0, 0, 1, 0, 1]

/-- Of two closing dots one stays in the question, but not on the wire. -/
theorem second_closing_dot_is_lost :
    encodeQuery (.ofText "example.com.." .a) 7 = .ok plainQuery ∧
      decode 0 plainQuery = .ok (.query ⟨"example.com", .a, .«in»⟩ 7) ∧
      decode 0 plainQuery ≠ .ok (.query (.ofText "example.com.." .a) 7) := by
  have hread : decode 0 plainQuery = .ok (.query ⟨"example.com", .a, .«in»⟩ 7) := by decide +kernel
  refine ⟨by decide +kernel, hread, ?_⟩
  rw [hread]
  decide

/-- A message that was read can be written and comes back as it was exactly if its names are
tight. -/
theorem encode_reread_iff {now : Instant} {octets : List UInt8} {m : Message}
    (h : decode now octets = .ok m) (later : Instant) :
    m.relearned now = m ∧
      ((∃ written, encode m = .ok written ∧ decode later written = .ok (m.relearned later)) ↔
        ∀ q ∈ m.owners, Name.isTight q.name = true) := by
  have hm := isRead_of_decode h
  refine ⟨hm.relearned_eq, ?_⟩
  have hread : ∀ {written}, encode m = .ok written → decode later written = .ok (m.reread later) :=
    decode_encode_reread later hm.flags (fun q hq => (hm.question q hq).isTyped)
      fun r hr => (hm.records r hr).isTyped
  have htight : (∀ q ∈ m.owners, Name.isTight q.name = true) ↔
      (∀ q ∈ m.owners, ∃ octets, encodeName q.name = .ok octets) ∧
        ∀ q ∈ m.owners, q.reread = q := by
    rw [← forall₂_and]
    exact forall₂_congr fun q hq => (hm.owners q hq).isTight_iff
  rw [htight, ← exists_encode_iff hm, ← Message.reread_eq_relearned_iff]
  constructor
  · intro hback
    obtain ⟨written, hwritten, hdecode⟩ := hback
    rw [hread hwritten] at hdecode
    exact ⟨⟨written, hwritten⟩, Except.ok.inj hdecode⟩
  · intro hback
    obtain ⟨⟨written, hwritten⟩, hsame⟩ := hback
    exact ⟨written, hwritten, by rw [hread hwritten, hsame]⟩

/-- A question and an answer whose owner is a pointer to its name, with an octet too many. -/
def compressed : List UInt8 :=
  [0, 7, 0x84, 0, 0, 1, 0, 1, 0, 0, 0, 0] ++
    [7, 101, 120, 97, 109, 112, 108, 101, 3, 99, 111, 109, 0, 0, 1, 0, 1] ++
    [0xC0, 12, 0, 1, 0, 1, 0, 0, 14, 16, 0, 4, 93, 184, 216, 34] ++ [255]

theorem compressed_comes_back :
    ∃ m written, decode 5 compressed = .ok m ∧ encode m = .ok written ∧
      decode 9 written = .ok (m.relearned 9) := by
  have hread : decode 5 compressed = .ok
      ⟨7, { response := true, authoritative := true }, some ⟨"example.com", .a, .«in»⟩,
        [.learned 5 ⟨"example.com", .a, .«in»⟩ 3600 (.address (.ofQuad 93 184 216 34))],
        [], []⟩ := by
    decide +kernel
  obtain ⟨written, hwritten, hback⟩ := (encode_reread_iff hread 9).2.2 (by decide)
  exact ⟨_, written, hread, hwritten, hback⟩

/-- A response that says nothing but its question. -/
def bareResponse (name : String) : Message :=
  ⟨7, { response := true }, some ⟨name, .a, .«in»⟩, [], [], []⟩

/-- A response to a question with the given labels as they stand on the wire. -/
def asksFor (labels : List UInt8) : List UInt8 :=
  [0, 7, 0x80, 0, 0, 1, 0, 0, 0, 0, 0, 0] ++ labels ++ [0, 0, 1, 0, 1]

/-- Of two blank labels at the end of a name the first reading takes one and the second the other; a
blank label in front becomes an empty one, which cannot be written. -/
theorem blank_labels_do_not_come_back :
    (decode 0 (asksFor [1, 97, 1, 32, 1, 32]) = .ok (bareResponse "a. ") ∧
      encode (bareResponse "a. ") = .ok (asksFor [1, 97, 1, 32]) ∧
      decode 0 (asksFor [1, 97, 1, 32]) ≠ .ok (bareResponse "a. ")) ∧
    decode 0 (asksFor [1, 32, 1, 97]) = .ok (bareResponse ".a") ∧
      encode (bareResponse ".a") = .error (.emptyLabel ".a") := by
  have hagain : decode 0 (asksFor [1, 97, 1, 32]) = .ok (bareResponse "a") := by decide +kernel
  refine ⟨⟨by decide +kernel, by decide +kernel, ?_⟩, by decide +kernel, by decide +kernel⟩
  rw [hagain]
  decide

end Wire

end IterativeDns
