import IterativeDns.Proofs.Wire.Decoded

/-!
# Names in runs

A name in a message is a chain of *runs*: each is some labels one after the other, and then either a
zero octet, which ends the name, or a pointer to the place where the next run starts, which has to
be before the place where this one does. `Spells` says so without reading anything.

**A name is read where the octets spell one that is not too long, and nowhere else**
(`reads_exactly_legal_names`). Pointers may lead anywhere, into the middle of a label or of another
name, and runs may overlap; what makes the chain end is only that it goes towards the front.

Reading is also a loop (`loop`): it keeps the labels it has met, and the place to go on from after
the first pointer. Every turn either takes octets from those a name may have or moves the start of
the run to the front, so that the number of turns has a bound that can be told beforehand
(`loop_eq`).
-/

namespace IterativeDns.Wire

/-! ### Pointers -/

/-- The octets that lead to a place of the message; they can say places below 16384. -/
def pointerOctets (target : Nat) : List UInt8 :=
  [.ofNat (0xC0 + target / 256), .ofNat (target % 256)]

/-- The places a pointer can lead to. -/
def maxTarget : Nat := 0x3FFF

theorem labelKind_pointer {octet : UInt8} {high : Nat} (h : labelKind octet = .pointer high) :
    octet.toNat = 0xC0 + high ∧ high < 0x40 := by
  have hoctet : octet.toNat < 256 := octet.toNat_lt
  unfold labelKind at h
  simp only at h
  repeat' split at h
  all_goals simp only [LabelKind.pointer.injEq, reduceCtorEq] at h
  omega

theorem labelKind_pointerOctet {target : Nat} (h : target ≤ maxTarget) :
    labelKind (.ofNat (0xC0 + target / 256)) = .pointer (target / 256) := by
  unfold maxTarget at h
  have hoctet : (UInt8.ofNat (0xC0 + target / 256)).toNat = 0xC0 + target / 256 := by
    rw [UInt8.toNat_ofNat']
    omega
  simp only [labelKind, hoctet]
  rw [if_neg (by omega), if_neg (by omega), if_neg (by omega), if_neg (by omega),
    Nat.add_sub_cancel_left]

/-- The octets of a pointer are those of the place it leads to. -/
theorem pointerOctets_eq {octet : UInt8} {high : Nat} (h : labelKind octet = .pointer high)
    (low : UInt8) :
    high * 256 + low.toNat ≤ maxTarget ∧
      pointerOctets (high * 256 + low.toNat) = [octet, low] := by
  obtain ⟨hoctet, hhigh⟩ := labelKind_pointer h
  have hlow : low.toNat < 256 := low.toNat_lt
  have hdiv : (high * 256 + low.toNat) / 256 = high := by omega
  have hmod : (high * 256 + low.toNat) % 256 = low.toNat := by omega
  unfold maxTarget
  refine ⟨by omega, ?_⟩
  rw [pointerOctets, hdiv, hmod, ← hoctet, UInt8.ofNat_toNat, UInt8.ofNat_toNat]

/-- A pointer to the front is followed. -/
theorem walk_of_pointer {message : List UInt8} {offset start used position target : Nat}
    (hsmall : target ≤ maxTarget) (h : HasAt message position (pointerOctets target))
    (hback : target < start) :
    walk message offset start used position =
      (walk message offset target used target).map fun r => (r.1, position + 2) := by
  obtain ⟨hoctet, hlow⟩ := hasAt_cons.1 h
  have htarget : target / 256 * 256 + (UInt8.ofNat (target % 256)).toNat = target := by
    rw [UInt8.toNat_ofNat']
    omega
  rw [walk_pointer hoctet (labelKind_pointerOctet hsmall) hlow.getElem? (by rwa [htarget]), htarget]

/-! ### Legal names -/

/-- From `start` on the octets spell a name in runs: the labels of each run, and the position `next`
after the first run and what ends it. -/
inductive Spells (message : List UInt8) :
    (start : Nat) → (runs : List (List (List Char))) → (next : Nat) → Prop where
  /-- The last run ends in a zero octet. -/
  | last {start : Nat} {labels : List (List Char)}
      (hlabels : ∀ label ∈ labels, IsLabel label ∧ '.' ∉ label)
      (hat : HasAt message start (labels.flatMap labelOctets ++ [0])) :
      Spells message start [labels] (start + (labels.flatMap labelOctets).length + 1)
  /-- Any other run ends in a pointer to the next one, which starts further in front. -/
  | jump {start target next : Nat} {labels : List (List Char)} {runs : List (List (List Char))}
      (hlabels : ∀ label ∈ labels, IsLabel label ∧ '.' ∉ label) (hsmall : target ≤ maxTarget)
      (hat : HasAt message start (labels.flatMap labelOctets ++ pointerOctets target))
      (hback : target < start) (hrest : Spells message target runs next) :
      Spells message start (labels :: runs) (start + (labels.flatMap labelOctets).length + 2)

/-- The octets a name in runs needs when it is written in one, but for the closing zero. -/
def spelledSize (runs : List (List (List Char))) : Nat :=
  (runs.flatten.flatMap labelOctets).length

/-- The text of a name in runs. -/
def spelledText (runs : List (List (List Char))) : String :=
  String.ofList (Name.join runs.flatten)

@[simp] theorem spelledSize_cons (labels : List (List Char)) (runs : List (List (List Char))) :
    spelledSize (labels :: runs) = (labels.flatMap labelOctets).length + spelledSize runs := by
  simp [spelledSize]

theorem spelledSize_singleton (labels : List (List Char)) :
    spelledSize [labels] = (labels.flatMap labelOctets).length := by
  simp [spelledSize]

section Spells

variable {message : List UInt8} {start next : Nat} {runs : List (List (List Char))}

theorem Spells.lt (h : Spells message start runs next) : start < next := by
  cases h <;> omega

theorem Spells.le (h : Spells message start runs next) : next ≤ message.length := by
  cases h with
  | last _ hat => simpa [Nat.add_assoc] using hat.le
  | jump _ _ hat => simpa [pointerOctets, Nat.add_assoc] using hat.le

theorem Spells.labels (h : Spells message start runs next) :
    ∀ label ∈ runs.flatten, IsLabel label ∧ '.' ∉ label := by
  induction h with
  | last hlabels _ => simpa using hlabels
  | jump hlabels _ _ _ _ ih =>
    rw [List.flatten_cons, List.forall_mem_append]
    exact ⟨hlabels, ih⟩

/-! ### Spelled names are read -/

theorem walk_of_spells (h : Spells message start runs next) {offset used : Nat}
    (hused : used + spelledSize runs ≤ maxName) :
    walk message offset start used start = .ok (runs.flatten.map String.ofList, next) := by
  induction h generalizing used with
  | last hlabels hat =>
    obtain ⟨hrun, hzero⟩ := hasAt_append.1 hat
    rw [spelledSize_singleton] at hused
    rw [walk_labels hlabels hrun hused, walk_root hzero.getElem?]
    simp [Except.map]
  | jump hlabels hsmall hat hback _ ih =>
    obtain ⟨hrun, hpointer⟩ := hasAt_append.1 hat
    rw [spelledSize_cons, ← Nat.add_assoc] at hused
    rw [walk_labels hlabels hrun (by omega), walk_of_pointer hsmall hpointer hback, ih hused]
    simp [Except.map]

/-! ### What is read is spelled -/

/-- A reading goes to the end of the run it is in, and if that is a pointer, on from there. -/
theorem exists_run_of_walk {offset used position : Nat} {labels : List String}
    (h : walk message offset start used position = .ok (labels, next)) :
    ∃ run : List (List Char), (∀ label ∈ run, IsLabel label ∧ '.' ∉ label) ∧
      ((HasAt message position (run.flatMap labelOctets ++ [0]) ∧
          labels = run.map String.ofList ∧
          next = position + (run.flatMap labelOctets).length + 1) ∨
        ∃ target rest past, target ≤ maxTarget ∧
          HasAt message position (run.flatMap labelOctets ++ pointerOctets target) ∧
          target < start ∧
          walk message offset target (used + (run.flatMap labelOctets).length) target =
            .ok (rest, past) ∧
          labels = run.map String.ofList ++ rest ∧
          next = position + (run.flatMap labelOctets).length + 2) := by
  rcases walk_cases h with ⟨hoctet, rfl, rfl⟩ |
    ⟨octets, text, rest, hoctet, hpos, hle, htake, -, htext, rfl, hrest⟩ |
    ⟨octet, high, low, past, hoctet, hkind, hlow, hback, hwalk, rfl⟩
  · exact ⟨[], by simp, .inl ⟨hasAt_singleton hoctet, rfl, rfl⟩⟩
  · obtain ⟨hoctets, hdot⟩ := labelText_eq_ok htext
    subst hoctets
    have hinside : position + 1 ≤ message.length := (List.getElem?_eq_some_iff.1 hoctet).1
    -- the label that was met first comes in front of the run behind it
    have hfirst : labelOctets text.toList = .ofNat (utf8 text).length :: utf8 text := by
      rw [labelOctets, String.ofList_toList]
    have hfirstAt : HasAt message position (labelOctets text.toList) := by
      rw [hfirst]
      exact hasAt_cons.2 ⟨hoctet, hasAt_of_take_drop hinside htake⟩
    have hlabel : IsLabel text.toList ∧ '.' ∉ text.toList := by
      refine ⟨⟨?_, by rwa [String.ofList_toList]⟩, hdot⟩
      intro hnil
      rw [utf8_eq_nil_iff.2 (String.toList_inj.1 hnil)] at hpos
      exact Nat.lt_irrefl 0 hpos
    have hsize : (labelOctets text.toList).length = (utf8 text).length + 1 := by
      rw [hfirst, List.length_cons]
    have hplace : position + (labelOctets text.toList).length =
        position + 1 + (utf8 text).length := by omega
    obtain ⟨run, hrun, hend⟩ := exists_run_of_walk hrest
    refine ⟨text.toList :: run, List.forall_mem_cons.2 ⟨hlabel, hrun⟩, ?_⟩
    simp only [List.flatMap_cons, List.map_cons, String.ofList_toList, List.length_append,
      List.append_assoc]
    rcases hend with ⟨hat, rfl, rfl⟩ | ⟨target, rest, past, hsmall, hat, hback, hwalk, rfl, rfl⟩
    · exact .inl ⟨hasAt_append.2 ⟨hfirstAt, hplace ▸ hat⟩, rfl, by omega⟩
    · refine .inr ⟨target, rest, past, hsmall, hasAt_append.2 ⟨hfirstAt, hplace ▸ hat⟩, hback, ?_,
        rfl, by omega⟩
      rw [hsize, ← hwalk]
      congr 1
      omega
  · obtain ⟨hsmall, hpointer⟩ := pointerOctets_eq hkind low
    refine ⟨[], by simp, .inr ⟨_, labels, past, hsmall, ?_, hback, hwalk, rfl, rfl⟩⟩
    rw [List.flatMap_nil, List.nil_append, hpointer]
    exact hasAt_cons.2 ⟨hoctet, hasAt_singleton hlow⟩
termination_by labels.length

/-- The labels that are read are spelled in runs: one for the place where reading begins, and one
for every pointer. -/
theorem exists_spells_of_walk {message : List UInt8} {offset start used next : Nat}
    {labels : List String} (h : walk message offset start used start = .ok (labels, next)) :
    ∃ runs, Spells message start runs next ∧ labels = runs.flatten.map String.ofList := by
  obtain ⟨run, hrun, ⟨hat, rfl, rfl⟩ | ⟨target, rest, past, hsmall, hat, hback, hrest, rfl, rfl⟩⟩ :=
    exists_run_of_walk h
  · exact ⟨[run], .last hrun hat, by simp⟩
  · obtain ⟨runs, hruns, rfl⟩ := exists_spells_of_walk hrest
    exact ⟨run :: runs, .jump hrun hsmall hat hback hruns, by simp⟩
termination_by start

theorem map_toList_map_ofList (labels : List (List Char)) :
    (labels.map String.ofList).map String.toList = labels := by
  simp [Function.comp_def]

theorem decodeName_eq_ok_iff {name : String} :
    decodeName message start = .ok (name, next) ↔
      ∃ runs, Spells message start runs next ∧ spelledSize runs + 1 ≤ maxName ∧
        name = spelledText runs := by
  simp only [decodeName, bind_eq_ok, pure_eq_ok, Prod.mk.injEq]
  constructor
  · intro h
    obtain ⟨⟨labels, past⟩, hwalk, rfl, rfl⟩ := h
    obtain ⟨runs, hruns, rfl⟩ := exists_spells_of_walk hwalk
    obtain ⟨-, hsize⟩ := walk_eq_ok hwalk (by decide)
    rw [map_toList_map_ofList] at hsize ⊢
    exact ⟨runs, hruns, by rw [Nat.add_comm]; exact hsize, rfl⟩
  · intro h
    obtain ⟨runs, hruns, hsize, rfl⟩ := h
    refine ⟨_, walk_of_spells hruns (by omega), ?_, rfl⟩
    rw [map_toList_map_ofList]
    rfl

/-! ### The same name in one run -/

/-- The labels of a name that is joined from labels. -/
theorem nameLabels_join {labels : List (List Char)}
    (hlabels : ∀ label ∈ labels, IsLabel label ∧ '.' ∉ label)
    (hsize : (labels.flatMap labelOctets).length + 1 ≤ maxName) :
    nameLabels (String.ofList (Name.join labels)) = labels := by
  by_cases hempty : labels = []
  · rw [hempty]
    rfl
  · have hpieces := Name.pieces_join hempty fun label hlabel => (hlabels label hlabel).2
    obtain ⟨hlast, -⟩ := encodeName_of_join hlabels hsize (String.toList_ofList ..)
    rw [nameLabels_eq_pieces ?_ hlast, String.toList_ofList, hpieces]
    rw [String.toList_ofList]
    intro hnil
    -- the empty text has the empty label alone, which is none
    rw [hnil] at hpieces
    exact (hlabels [] (hpieces ▸ List.mem_singleton_self _)).1.1 rfl

/-- A name in runs can be written in one, and is read from there as the same name. -/
theorem Spells.encodeName (h : Spells message start runs next)
    (hsize : spelledSize runs + 1 ≤ maxName) :
    encodeName (spelledText runs) = .ok (runs.flatten.flatMap labelOctets ++ [0]) := by
  have hnames : nameLabels (spelledText runs) = runs.flatten := nameLabels_join h.labels hsize
  rw [encodeName_eq_ok, hnames]
  exact ⟨fun label hlabel => (h.labels label hlabel).1, hsize, rfl⟩

theorem Spells.decodeName_plain (h : Spells message start runs next)
    (hsize : spelledSize runs + 1 ≤ maxName) {plain : List UInt8} {position : Nat}
    (hat : HasAt plain position (runs.flatten.flatMap labelOctets ++ [0])) :
    decodeName plain position = .ok (spelledText runs, position + spelledSize runs + 1) := by
  have htext : (spelledText runs).toList = Name.join runs.flatten := String.toList_ofList
  obtain ⟨hlast, -⟩ := encodeName_of_join h.labels hsize htext
  rw [decodeName_of_hasAt (h.encodeName hsize) hat, Name.stripDot_eq_self hlast, List.length_append,
    ← Nat.add_assoc]
  rfl

end Spells

/-! ### Reading as a loop -/

/-- Where the reading of a name stands. -/
structure Reading where
  labels : List String := []
  /-- The place of the next octet. -/
  position : Nat
  /-- Where the run starts that is being read. -/
  start : Nat
  /-- How many octets the name has so far, the closing zero included. -/
  used : Nat := 1
  /-- The position after the first pointer, once there was one. -/
  resume : Option Nat := none

namespace Reading

/-- The reading of a name begins. -/
def begin (offset : Nat) : Reading where
  position := offset
  start := offset

/-- What the reading ends with, given the labels that are still to come and the position after
them. -/
def finish (r : Reading) (rest : List String × Nat) : String × Nat :=
  (String.ofList (Name.join ((r.labels ++ rest.1).map String.toList)), r.resume.getD rest.2)

/-- An upper bound of the turns that a reading has still to make, but for the last one: a label
takes at least two of the octets a name may have, and a pointer moves the start of the run to the
front. -/
def turnsLeft (r : Reading) : Nat :=
  r.start + (maxName - r.used) / 2

end Reading

/-- One turn of the loop: the reading goes on, or the name and the position after it are known. -/
def turn (message : List UInt8) (offset : Nat) (r : Reading) :
    Except Fault (Reading ⊕ (String × Nat)) :=
  match message[r.position]? with
  | none => throw (.nameCutShort offset)
  | some octet =>
    match labelKind octet with
    | .root => return .inr (r.finish ([], r.position + 1))
    | .unknown bits => throw (.unknownLabelKind bits r.position)
    | .label length =>
      let octets := (message.drop (r.position + 1)).take length
      if octets.length < length then throw (.labelCutShort r.position)
      else if maxName < r.used + length + 1 then throw (.nameOversized offset)
      else do
        let text ← labelText r.position octets
        return .inl { r with
          labels := r.labels ++ [text]
          position := r.position + 1 + length
          used := r.used + length + 1 }
    | .pointer high =>
      match message[r.position + 1]? with
      | none => throw (.pointerCutShort r.position)
      | some low =>
        let target := high * 256 + low.toNat
        if target < r.start then
          return .inl { r with
            position := target
            start := target
            resume := r.resume.or (some (r.position + 2)) }
        else throw (.pointerNotBackward r.position target)

/-- The loop, for a number of turns at most; no result means that they were too few. -/
def loop (message : List UInt8) (offset : Nat) :
    Nat → Reading → Option (Except Fault (String × Nat))
  | 0, _ => none
  | turns + 1, r =>
    match turn message offset r with
    | .error fault => some (.error fault)
    | .ok (.inr result) => some (.ok result)
    | .ok (.inl r) => loop message offset turns r

section Loop

variable {message : List UInt8} {offset : Nat}

/-- What comes of a reading in the end. -/
def outcome (message : List UInt8) (offset : Nat) (r : Reading) : Except Fault (String × Nat) :=
  (walk message offset r.start r.used r.position).map r.finish

/-- A turn does not change what comes of the reading in the end. -/
theorem outcome_eq_turn (r : Reading) :
    outcome message offset r =
      match turn message offset r with
      | .error fault => .error fault
      | .ok (.inr result) => .ok result
      | .ok (.inl r) => outcome message offset r := by
  rw [outcome, walk, turn]
  cases hoctet : message[r.position]? with
  | none => rfl
  | some octet =>
    dsimp only
    cases hkind : labelKind octet with
    | root => rfl
    | unknown bits => rfl
    | label length =>
      dsimp only
      split
      · rfl
      · split
        · rfl
        · cases labelText r.position ((message.drop (r.position + 1)).take length) with
          | error fault => rfl
          | ok text =>
            show _ = (walk message offset r.start (r.used + length + 1)
              (r.position + 1 + length)).map _
            cases walk message offset r.start (r.used + length + 1) (r.position + 1 + length) with
            | error fault => rfl
            | ok rest => simp [bind, Except.bind, pure, Except.pure, Except.map, Reading.finish]
    | pointer high =>
      dsimp only
      cases message[r.position + 1]? with
      | none => rfl
      | some low =>
        dsimp only
        split
        · show _ = (walk message offset (high * 256 + low.toNat) r.used
            (high * 256 + low.toNat)).map _
          cases walk message offset (high * 256 + low.toNat) r.used (high * 256 + low.toNat) with
          | error fault => rfl
          | ok rest =>
            cases hresume : r.resume <;>
              simp [bind, Except.bind, pure, Except.pure, Except.map, Reading.finish, hresume]
        · rfl

theorem turnsLeft_lt_of_turn {r r' : Reading} (h : turn message offset r = .ok (.inl r'))
    (hused : r.used ≤ maxName) : r'.used ≤ maxName ∧ r'.turnsLeft < r.turnsLeft := by
  unfold turn at h
  split at h
  · cases h
  · next octet hoctet =>
    split at h
    · cases h
    · cases h
    · next length hkind =>
      obtain ⟨-, hpos, -⟩ := labelKind_label hkind
      simp only at h
      split at h
      · cases h
      · split at h
        · cases h
        · next hfit =>
          obtain ⟨text, -, h⟩ := bind_eq_ok.1 h
          cases pure_eq_ok.1 h
          simp only [Reading.turnsLeft]
          omega
    · next high hkind =>
      split at h
      · cases h
      · next low hlow =>
        simp only at h
        split at h
        · next hback =>
          cases pure_eq_ok.1 h
          simp only [Reading.turnsLeft]
          omega
        · cases h

/-- Enough turns of the loop give what comes of the reading. -/
theorem loop_eq_outcome {turns : Nat} {r : Reading} (hused : r.used ≤ maxName)
    (h : r.turnsLeft < turns) : loop message offset turns r = some (outcome message offset r) := by
  induction turns generalizing r with
  | zero => omega
  | succ turns ih =>
    rw [loop, outcome_eq_turn]
    cases hturn : turn message offset r with
    | error fault => rfl
    | ok next =>
      cases next with
      | inr result => rfl
      | inl r' =>
        obtain ⟨hused', hless⟩ := turnsLeft_lt_of_turn hturn hused
        exact ih hused' (by omega)

/-- The loop ends after at most as many turns as the offset and 128, with the name that is read. -/
theorem loop_eq {turns : Nat} (h : offset + 128 ≤ turns) :
    loop message offset turns (.begin offset) = some (decodeName message offset) := by
  have hleft : (Reading.begin offset).turnsLeft < turns := by
    simp only [Reading.turnsLeft, Reading.begin, maxName]
    omega
  have houtcome : outcome message offset (.begin offset) = decodeName message offset := by
    rw [decodeName]
    show (walk message offset offset 1 offset).map _ = _
    cases walk message offset offset 1 offset <;> rfl
  have hused : (Reading.begin offset).used ≤ maxName := by
    simp [Reading.begin, maxName]
  rw [loop_eq_outcome hused hleft, houtcome]

end Loop

/-! ### Main result -/

/-- From whatever place of whatever octets a name is to be read: the loop comes to an end and its
result is that of `decodeName`. The result is a name exactly if the octets spell one from that
place on whose labels fit into 255 octets, and then it is the labels joined by dots, and the
position after the first run and its end, which lies behind the place and inside the message. Such
a name can be written, as its labels without any pointers, and wherever it stands like that it is
read as the same text. -/
theorem reads_exactly_legal_names (message : List UInt8) (offset : Nat) :
    (∀ turns, offset + 128 ≤ turns →
      loop message offset turns (.begin offset) = some (decodeName message offset)) ∧
    (∀ name next, decodeName message offset = .ok (name, next) ↔
      ∃ runs, Spells message offset runs next ∧ spelledSize runs + 1 ≤ maxName ∧
        name = spelledText runs) ∧
    ∀ runs next, Spells message offset runs next → spelledSize runs + 1 ≤ maxName →
      offset < next ∧ next ≤ message.length ∧
      encodeName (spelledText runs) = .ok (runs.flatten.flatMap labelOctets ++ [0]) ∧
      ∀ plain position, HasAt plain position (runs.flatten.flatMap labelOctets ++ [0]) →
        decodeName plain position = .ok (spelledText runs, position + spelledSize runs + 1) := by
  refine ⟨fun turns => loop_eq, fun name next => decodeName_eq_ok_iff, ?_⟩
  intro runs next hspells hsize
  exact ⟨hspells.lt, hspells.le, hspells.encodeName hsize,
    fun plain position => hspells.decodeName_plain hsize⟩

-- a pointer into the middle of the label in front of it
example : decodeName [2, 1, 97, 0, 0xC0, 1] 4 = .ok ("a", 6) := by decide +kernel

end IterativeDns.Wire
