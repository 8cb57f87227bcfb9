import IterativeDns.Proofs.Wire.Payload

/-!
# Messages written and read

A written message is read as it was, but for what octets do not say, when its records were learned,
and for the names of owners, which are normalised by reading (`decode_encode_reread`). The names of
*canonical* messages, all of whose parts have a single form, are left alone, so these come back as
they were (`decode_encode`).

A message is read front to back, so the proof follows the position: every part of what `encode`
writes stands where the reader is when it comes to it (`HasAt`).
-/

namespace IterativeDns

/-! ### Canonical messages -/

/-- Normalisation leaves the name of the question alone, and type and class are the ones their
codes mean. -/
def Question.IsCanonical (q : Question) : Prop :=
  Name.normalize q.name = q.name ∧ q.recordType.IsCanonical ∧ q.recordClass.IsCanonical

instance (q : Question) : Decidable q.IsCanonical :=
  inferInstanceAs (Decidable (_ ∧ _ ∧ _))

/-- The record carries what its type demands, and a name it points at has no closing dot. -/
def Record.IsCanonical (r : Record) : Prop :=
  r.question.IsCanonical ∧ r.data.suits r.recordType = true ∧ r.data.isUndotted = true

instance (r : Record) : Decidable r.IsCanonical :=
  inferInstanceAs (Decidable (_ ∧ _ ∧ _))

namespace Message

/-- The numbers in the flags fit, and the question and all records are canonical. -/
def IsCanonical (m : Message) : Prop :=
  m.flags.Fits ∧ (∀ q ∈ m.question.toList, q.IsCanonical) ∧ ∀ r ∈ m.allRecords, r.IsCanonical

instance (m : Message) : Decidable m.IsCanonical :=
  inferInstanceAs (Decidable (_ ∧ _ ∧ _))

end Message

/-! ### What octets do not say -/

/-- The record, learned now. -/
def Record.relearned (now : Instant) (r : Record) : Record :=
  .learned now r.question r.ttl r.data

/-- The message with all its records learned now. -/
def Message.relearned (now : Instant) (m : Message) : Message :=
  ⟨m.id, m.flags, m.question, m.answers.map (Record.relearned now),
    m.authorities.map (Record.relearned now), m.additionals.map (Record.relearned now)⟩

/-! ### What a written message is read as

Octets keep the spelling of an owner's name, but reading normalises it once more. -/

/-- The type and the class are the ones their codes mean. -/
def Question.IsTyped (q : Question) : Prop :=
  q.recordType.IsCanonical ∧ q.recordClass.IsCanonical

/-- The record carries what its type demands, and a name it points at has no closing dot. -/
def Record.IsTyped (r : Record) : Prop :=
  r.question.IsTyped ∧ r.data.suits r.recordType = true ∧ r.data.isUndotted = true

/-- The question as it is read where it was written. -/
def Question.reread (q : Question) : Question :=
  .ofText (Name.stripDot q.name) q.recordType q.recordClass

/-- The record as it is read where it was written. -/
def Record.reread (now : Instant) (r : Record) : Record :=
  .learned now r.question.reread r.ttl r.data

@[simp] theorem Question.recordType_reread (q : Question) :
    q.reread.recordType = q.recordType := by
  rw [reread, ofText]

theorem Question.IsCanonical.reread_eq {q : Question} (hq : q.IsCanonical) : q.reread = q := by
  obtain ⟨hnormal, -, -⟩ := hq
  rw [reread, Name.stripDot_eq_self (Name.getLast?_ne_dot_of_normalize_eq hnormal), ofText, hnormal]

/-- The message as it is read where it was written. -/
def Message.reread (now : Instant) (m : Message) : Message :=
  ⟨m.id, m.flags, m.question.map Question.reread, m.answers.map (Record.reread now),
    m.authorities.map (Record.reread now), m.additionals.map (Record.reread now)⟩

/-- The question of a message and the owners of its records. -/
def Message.owners (m : Message) : List Question :=
  m.question.toList ++ m.allRecords.map (·.question)

theorem Message.forall_owners {m : Message} {p : Question → Prop} :
    (∀ q ∈ m.owners, p q) ↔
      (∀ q ∈ m.question.toList, p q) ∧ ∀ r ∈ m.allRecords, p r.question := by
  simp only [owners, List.mem_append, or_imp, forall_and, List.forall_mem_map]

theorem Record.reread_eq_relearned_iff {r : Record} {now : Instant} :
    r.reread now = r.relearned now ↔ r.question.reread = r.question := by
  simp [reread, relearned, learned, goodUntil]

/-- A message is reread as it was exactly if all its owners are. -/
theorem Message.reread_eq_relearned_iff {m : Message} {now : Instant} :
    m.reread now = m.relearned now ↔ ∀ q ∈ m.owners, q.reread = q := by
  have hquestion : m.question.map Question.reread = m.question ↔
      ∀ q ∈ m.question.toList, q.reread = q := by
    cases m.question <;> simp
  rw [forall_owners, ← hquestion]
  simp only [reread, relearned, Message.mk.injEq, true_and, List.map_inj_left,
    Record.reread_eq_relearned_iff, allRecords, List.mem_append, or_imp, forall_and, and_assoc]

namespace Wire

/-! ### Questions -/

theorem encodeQuestion_eq_ok {q : Question} {octets : List UInt8} :
    encodeQuestion q = .ok octets ↔
      ∃ name, encodeName q.name = .ok name ∧
        octets = name ++ word16 q.recordType.code ++ word16 q.recordClass.code := by
  simp only [encodeQuestion, bind_eq_ok, pure_eq_ok, eq_comm (a := octets)]

theorem minQuestion_le_length {q : Question} {octets : List UInt8}
    (h : encodeQuestion q = .ok octets) : minQuestion ≤ octets.length := by
  obtain ⟨name, hname, rfl⟩ := encodeQuestion_eq_ok.1 h
  obtain ⟨-, -, rfl⟩ := encodeName_eq_ok.1 hname
  simp only [List.length_append, List.length_cons, List.length_nil, length_word16, minQuestion]
  omega

/-- A written question is read, its name normalised. -/
theorem takeQuestion_reread {q : Question} {octets message : List UInt8} {position : Nat}
    (hq : q.IsTyped) (hencode : encodeQuestion q = .ok octets)
    (h : HasAt message position octets) :
    takeQuestion message position = .ok (q.reread, position + octets.length) := by
  obtain ⟨htype, hclass⟩ := hq
  obtain ⟨name, hname, rfl⟩ := encodeQuestion_eq_ok.1 hencode
  obtain ⟨h, hclassAt⟩ := hasAt_append.1 h
  obtain ⟨hnameAt, htypeAt⟩ := hasAt_append.1 h
  rw [List.length_append, length_word16, ← Nat.add_assoc] at hclassAt
  have hread := decodeName_of_hasAt hname hnameAt
  have hquestion : Question.ofText (Name.stripDot q.name) (.ofCode q.recordType.code)
      (.ofCode q.recordClass.code) = q.reread := by
    rw [htype, hclass, Question.reread]
  simp only [List.length_append, length_word16, ← Nat.add_assoc]
  simp only [takeQuestion, hread, takeWord16_of_hasAt htypeAt, takeWord16_of_hasAt hclassAt,
    ok_bind, hquestion]
  rfl

/-! ### Records -/

theorem encodeSized_eq_ok {r : Record} {data octets : List UInt8} :
    encodeSized r data = .ok octets ↔
      data.length ≤ 65535 ∧ octets = word16 (.ofNat data.length) ++ data := by
  unfold encodeSized
  split
  · next h => simp [throw, throwThe, MonadExceptOf.throw, Nat.not_le.2 h]
  · next h => simp [pure, Except.pure, Nat.le_of_not_lt h, eq_comm]

theorem encodeRecord_eq_ok {r : Record} {octets : List UInt8} :
    encodeRecord r = .ok octets ↔
      ∃ owner data, encodeQuestion r.question = .ok owner ∧ encodeData r = .ok data ∧
        data.length ≤ 65535 ∧
        octets = owner ++ word32 r.ttl ++ (word16 (.ofNat data.length) ++ data) := by
  simp only [encodeRecord, bind_eq_ok, pure_eq_ok, encodeSized_eq_ok]
  constructor
  · intro h
    obtain ⟨owner, howner, data, hdata, _, ⟨hle, rfl⟩, rfl⟩ := h
    exact ⟨owner, data, howner, hdata, hle, rfl⟩
  · intro h
    obtain ⟨owner, data, howner, hdata, hle, rfl⟩ := h
    exact ⟨owner, howner, data, hdata, _, ⟨hle, rfl⟩, rfl⟩

/-- The name of the owner plays no part in what data is read as, unless to tell a fault. -/
theorem decodeData_reread {r : Record} {octets message : List UInt8} {position : Nat}
    (hsuits : r.data.suits r.recordType = true) (hdot : r.data.isUndotted = true)
    (hencode : encodeData r = .ok octets) (h : HasAt message position octets) :
    decodeData message r.question.reread position octets = .ok r.data := by
  obtain ⟨q, ttl, data, expires⟩ := r
  have hencode' : encodeData ⟨q.reread, ttl, data, expires⟩ = .ok octets := by
    cases data with
    | address ip =>
      simp only [encodeData] at hencode ⊢
      exact hencode
    | name target =>
      simp only [encodeData, Record.recordType, Question.recordType_reread] at hencode ⊢
      exact hencode
    | octets hex =>
      simp only [encodeData] at hencode ⊢
      cases hdecode : Text.Hex.decode? hex with
      | none =>
        rw [hdecode] at hencode
        cases hencode
      | some bytes =>
        rw [hdecode] at hencode
        exact hencode
  refine decodeData_of_hasAt (r := ⟨q.reread, ttl, data, expires⟩) ?_ hdot hencode' h
  simp only [Record.recordType, Question.recordType_reread] at hsuits ⊢
  exact hsuits

theorem minRecord_le_length {r : Record} {octets : List UInt8} (h : encodeRecord r = .ok octets) :
    minRecord ≤ octets.length := by
  obtain ⟨owner, data, howner, -, -, rfl⟩ := encodeRecord_eq_ok.1 h
  have := minQuestion_le_length howner
  simp only [List.length_append, length_word32, length_word16, minQuestion, minRecord] at this ⊢
  omega

theorem toNat_ofNat_of_le {n : Nat} (h : n ≤ 65535) : (UInt16.ofNat n).toNat = n := by
  rw [UInt16.toNat_ofNat']
  omega

/-- A written record is read, its name normalised. -/
theorem takeRecord_reread {now : Instant} {r : Record} {octets message : List UInt8}
    {position : Nat} (hr : r.IsTyped) (hencode : encodeRecord r = .ok octets)
    (h : HasAt message position octets) :
    takeRecord now message position = .ok (r.reread now, position + octets.length) := by
  obtain ⟨hquestion, hsuits, hdot⟩ := hr
  obtain ⟨owner, data, howner, hdata, hle, rfl⟩ := encodeRecord_eq_ok.1 hencode
  obtain ⟨hfront, hsized⟩ := hasAt_append.1 h
  obtain ⟨hownerAt, httl⟩ := hasAt_append.1 hfront
  obtain ⟨hlength, hdataAt⟩ := hasAt_append.1 hsized
  simp only [List.length_append, length_word32, length_word16, ← Nat.add_assoc] at hlength hdataAt
  have htake := take_of_hasAt hdataAt
  simp only [List.length_append, length_word32, length_word16, ← Nat.add_assoc]
  simp only [takeRecord, takeQuestion_reread hquestion howner hownerAt,
    takeWord32_of_hasAt httl, takeWord16_of_hasAt hlength, toNat_ofNat_of_le hle, htake,
    decodeData_reread hsuits hdot hdata hdataAt, ok_bind]
  rfl

/-! ### Sections -/

theorem encodeRecords_eq_ok {rs : List Record} {octets : List UInt8} :
    encodeRecords rs = .ok octets ↔
      ∃ parts, List.Forall₂ (fun r part => encodeRecord r = .ok part) rs parts ∧
        octets = parts.flatten := by
  simp only [encodeRecords, bind_eq_ok, pure_eq_ok, mapM_eq_ok, eq_comm (a := octets)]

theorem exists_encodeRecords_iff {rs : List Record} :
    (∃ octets, encodeRecords rs = .ok octets) ↔
      ∀ r ∈ rs, ∃ octets, encodeRecord r = .ok octets := by
  rw [← exists_mapM_iff]
  simp only [encodeRecords, bind_eq_ok, pure_eq_ok]
  constructor
  · intro h
    obtain ⟨_, parts, hparts, -⟩ := h
    exact ⟨parts, hparts⟩
  · intro h
    obtain ⟨parts, hparts⟩ := h
    exact ⟨_, parts, hparts, rfl⟩

/-- The records of two sections are written one section after the other. -/
theorem encodeRecords_append {rs rs' : List Record} {octets : List UInt8}
    (h : encodeRecords (rs ++ rs') = .ok octets) :
    ∃ a b, encodeRecords rs = .ok a ∧ encodeRecords rs' = .ok b ∧ octets = a ++ b := by
  simp only [encodeRecords, List.mapM_append, bind_eq_ok, pure_eq_ok] at h ⊢
  obtain ⟨_, ⟨parts, hparts, parts', hparts', rfl⟩, rfl⟩ := h
  exact ⟨_, _, ⟨parts, hparts, rfl⟩, ⟨parts', hparts', rfl⟩, List.flatten_append⟩

theorem minRecord_mul_le_length {rs : List Record} {octets : List UInt8}
    (h : encodeRecords rs = .ok octets) : rs.length * minRecord ≤ octets.length := by
  obtain ⟨parts, hparts, rfl⟩ := encodeRecords_eq_ok.1 h
  clear h
  induction hparts with
  | nil => simp
  | cons hpart _ ih =>
    have := minRecord_le_length hpart
    rw [List.length_cons, List.flatten_cons, List.length_append, Nat.succ_mul]
    omega

/-- The written records of a section are read, if their number fits into the count of the
section. -/
theorem takeRecords_reread (now : Instant) {rs : List Record} {octets message : List UInt8}
    {position : Nat} (hrs : ∀ r ∈ rs, r.IsTyped) (hcount : rs.length ≤ 65535)
    (hencode : encodeRecords rs = .ok octets) (h : HasAt message position octets) :
    takeMany (takeRecord now message) (UInt16.ofNat rs.length).toNat position =
      .ok (rs.map (Record.reread now), position + octets.length) := by
  obtain ⟨parts, hparts, rfl⟩ := encodeRecords_eq_ok.1 hencode
  rw [toNat_ofNat_of_le hcount, ← List.length_map (Record.reread now)]
  refine takeMany_of_hasAt ?_ h
  rw [List.forall₂_map_left_iff]
  have hboth := (List.forall₂_and_left _ _).2 ⟨hrs, hparts⟩
  exact hboth.imp fun r part ⟨hr, hpart⟩ position hat => takeRecord_reread hr hpart hat

/-! ### Whole messages -/

/-- The parts of a message, read one by one, make the message. -/
theorem decode_of_parts {now : Instant} {message : List UInt8} {id flags : UInt16}
    {questionCount answerCount authorityCount additionalCount : UInt16} {questions : List Question}
    {answers authorities additionals : List Record} {p₁ p₂ p₃ p₄ : Nat}
    (hheader : HasAt message 0 (word16 id ++ word16 flags ++ word16 questionCount
      ++ word16 answerCount ++ word16 authorityCount ++ word16 additionalCount))
    (hsize : minMessage questionCount.toNat answerCount.toNat authorityCount.toNat
      additionalCount.toNat ≤ message.length)
    (hquestions : takeMany (takeQuestion message) questionCount.toNat headerSize =
      .ok (questions, p₁))
    (hanswers : takeMany (takeRecord now message) answerCount.toNat p₁ = .ok (answers, p₂))
    (hauthorities : takeMany (takeRecord now message) authorityCount.toNat p₂ =
      .ok (authorities, p₃))
    (hadditionals : takeMany (takeRecord now message) additionalCount.toNat p₃ =
      .ok (additionals, p₄)) :
    decode now message =
      .ok ⟨id, .ofWord flags, questions.head?, answers, authorities, additionals⟩ := by
  have hshort : ¬message.length < headerSize := Nat.not_lt.2 hheader.le
  simp only [hasAt_append, List.length_append, length_word16] at hheader
  obtain ⟨⟨⟨⟨⟨hid, hflags⟩, hqc⟩, han⟩, hns⟩, har⟩ := hheader
  rw [decode, if_neg hshort]
  simp only [takeWord16_of_hasAt hid, takeWord16_of_hasAt hflags, takeWord16_of_hasAt hqc,
    takeWord16_of_hasAt han, takeWord16_of_hasAt hns, takeWord16_of_hasAt har, ok_bind]
  rw [if_neg (Nat.not_lt.2 hsize)]
  rw [show 0 + 2 + 2 + 2 + 2 + 2 + 2 = headerSize from rfl]
  simp only [hquestions, hanswers, hauthorities, hadditionals, ok_bind]
  rfl

theorem toNat_questionCount (q? : Option Question) :
    (if q?.isSome then 1 else 0 : UInt16).toNat = q?.toList.length := by
  cases q? <;> rfl

/-- The written question of a message is read, if it has one. -/
theorem takeQuestion?_reread {q? : Option Question} {octets message : List UInt8} {position : Nat}
    (hq : ∀ q ∈ q?.toList, q.IsTyped) (hencode : encodeQuestion? q? = .ok octets)
    (h : HasAt message position octets) :
    takeMany (takeQuestion message) (if q?.isSome then 1 else 0 : UInt16).toNat position =
      .ok ((q?.map Question.reread).toList, position + octets.length) := by
  cases q? with
  | none =>
    cases pure_eq_ok.1 hencode
    rfl
  | some q =>
    have hone := takeQuestion_reread (hq q List.mem_cons_self) hencode h
    show (takeQuestion message position >>= _) = _
    rw [hone]
    rfl

theorem minQuestion_mul_le_length {q? : Option Question} {octets : List UInt8}
    (h : encodeQuestion? q? = .ok octets) : q?.toList.length * minQuestion ≤ octets.length := by
  cases q? with
  | none =>
    rw [Option.toList_none, List.length_nil, Nat.zero_mul]
    exact Nat.zero_le _
  | some q =>
    rw [Option.toList_some, List.length_singleton, Nat.one_mul]
    exact minQuestion_le_length h

/-- Where the parts of a written message stand: the header, then the question and the three
sections, each behind the last. -/
theorem layout_of_encode {m : Message} {octets : List UInt8} (h : encode m = .ok octets) :
    ∃ question answers authorities additionals,
      encodeQuestion? m.question = .ok question ∧ encodeRecords m.answers = .ok answers ∧
      encodeRecords m.authorities = .ok authorities ∧
      encodeRecords m.additionals = .ok additionals ∧
      m.answers.length ≤ 65535 ∧ m.authorities.length ≤ 65535 ∧ m.additionals.length ≤ 65535 ∧
      octets = (word16 m.id ++ word16 m.flags.word ++ word16 (if m.question.isSome then 1 else 0)
        ++ word16 (.ofNat m.answers.length) ++ word16 (.ofNat m.authorities.length)
        ++ word16 (.ofNat m.additionals.length))
        ++ question ++ answers ++ authorities ++ additionals := by
  obtain ⟨question, records, hquestion, hrecords, han, hns, har, rfl⟩ := encode_eq_ok h
  obtain ⟨front, additionals, hfront, hadditionals, rfl⟩ := encodeRecords_append hrecords
  obtain ⟨answers, authorities, hanswers, hauthorities, rfl⟩ := encodeRecords_append hfront
  refine ⟨question, answers, authorities, additionals, hquestion, hanswers, hauthorities,
    hadditionals, han, hns, har, ?_⟩
  simp only [List.append_assoc]

/-- A message that is written is read with its names normalised. -/
theorem decode_encode_reread {m : Message} {octets : List UInt8} (now : Instant)
    (hflags : m.flags.Fits) (hquestion : ∀ q ∈ m.question.toList, q.IsTyped)
    (hrecords : ∀ r ∈ m.allRecords, r.IsTyped) (hencode : encode m = .ok octets) :
    decode now octets = .ok (m.reread now) := by
  obtain ⟨question, answers, authorities, additionals, hqEncode, hanEncode, hnsEncode, harEncode,
    han, hns, har, hoctets⟩ := layout_of_encode hencode
  simp only [Message.allRecords, List.mem_append, or_imp, forall_and] at hrecords
  obtain ⟨⟨hanTyped, hnsTyped⟩, harTyped⟩ := hrecords
  -- every part stands where the reader comes to it
  obtain ⟨hfront, harAt⟩ := hasAt_append.1 (hasAt_of_eq hoctets)
  obtain ⟨hfront, hnsAt⟩ := hasAt_append.1 hfront
  obtain ⟨hfront, hanAt⟩ := hasAt_append.1 hfront
  obtain ⟨hheader, hqAt⟩ := hasAt_append.1 hfront
  simp only [List.length_append, ← Nat.add_assoc] at hnsAt harAt hanAt
  have hsize : minMessage (if m.question.isSome then 1 else 0 : UInt16).toNat
      (UInt16.ofNat m.answers.length).toNat (UInt16.ofNat m.authorities.length).toNat
      (UInt16.ofNat m.additionals.length).toNat ≤ octets.length := by
    have h1 := minQuestion_mul_le_length hqEncode
    have h2 := minRecord_mul_le_length hanEncode
    have h3 := minRecord_mul_le_length hnsEncode
    have h4 := minRecord_mul_le_length harEncode
    rw [toNat_questionCount, toNat_ofNat_of_le han, toNat_ofNat_of_le hns, toNat_ofNat_of_le har,
      hoctets]
    simp only [List.length_append, length_word16, minMessage, headerSize, Nat.add_mul]
    omega
  rw [decode_of_parts hheader hsize (takeQuestion?_reread hquestion hqEncode hqAt)
    (takeRecords_reread now hanTyped han hanEncode hanAt)
    (takeRecords_reread now hnsTyped hns hnsEncode hnsAt)
    (takeRecords_reread now harTyped har harEncode harAt),
    Flags.ofWord_word hflags, Option.head?_toList]
  rfl

/-! ### Main results -/

/-- A canonical message that can be written is read as it was written, with its records learned at
the instant of reading. -/
theorem decode_encode {m : Message} {octets : List UInt8} (now : Instant) (hm : m.IsCanonical)
    (hencode : encode m = .ok octets) : decode now octets = .ok (m.relearned now) := by
  obtain ⟨hflags, hquestion, hrecords⟩ := hm
  have hsame : m.reread now = m.relearned now :=
    Message.reread_eq_relearned_iff.2 (Message.forall_owners.2
      ⟨fun q hq => (hquestion q hq).reread_eq, fun r hr => (hrecords r hr).1.reread_eq⟩)
  rw [← hsame]
  exact decode_encode_reread now hflags (fun q hq => (hquestion q hq).2)
    (fun r hr => ⟨(hrecords r hr).1.2, (hrecords r hr).2⟩) hencode

/-- A referral with an alias, a mail exchanger, addresses of both families and uninterpreted
data. -/
def referral : Message where
  id := 7
  flags := { response := true, recursionDesired := true }
  question := some ⟨"WWW.example.com", .a, .«in»⟩
  answers := [.permanent ⟨"www.Example.com", .cname, .«in»⟩ (.name "web.example.net"),
    .permanent ⟨"example.com", .mx, .«in»⟩ (.name "mail.example.com")]
  authorities := [.permanent ⟨"", .ns, .«in»⟩ (.name "a.root-servers.net")]
  additionals := [.permanent ⟨"a.root-servers.net", .a, .«in»⟩ (.address (.ofQuad 198 41 0 4)),
    .permanent ⟨"a.root-servers.net", .aaaa, .«in»⟩ (.address (.v6 (.replicate 16 1))),
    .permanent ⟨"txt.example.com", .txt, .ch⟩ (.octets "0361626b")]

theorem referral_read_as_written :
    ∃ octets, encode referral = .ok octets ∧ decode 5 octets = .ok (referral.relearned 5) := by
  have hcanonical : referral.IsCanonical := by decide +kernel
  have hwritten : (encode referral).toBool = true := by decide +kernel
  cases hencode : encode referral with
  | error fault =>
    rw [hencode] at hwritten
    cases hwritten
  | ok octets => exact ⟨octets, rfl, decode_encode 5 hcanonical hencode⟩

end Wire

end IterativeDns
