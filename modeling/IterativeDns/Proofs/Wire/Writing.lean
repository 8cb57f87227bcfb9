import IterativeDns.Proofs.Name.Labels
import IterativeDns.Proofs.Wire.Names
import Mathlib.Algebra.GroupWithZero.Nat

/-!
# Writing names

A name is written into a message that has already begun: label by label behind the octets that are
there, and whether it has become too long is seen when it is complete (`appendName`). That is the
same as writing the name by itself and putting it behind the octets (`appendName_eq`), which is what
`encode` does.

**A text can be written, behind whatever octets, exactly if it is legal as a name, and then it is
read again there, whatever follows it** (`writes_exactly_legal_names`). Legal is said of texts
alone: but for one closing dot the text is labels with dots between them, and these and the whole
are short enough in UTF-8.
-/

namespace IterativeDns.Wire

/-! ### Behind other octets -/

/-- The labels of `name` written one by one behind the octets before them. -/
def appendLabels (name : String) : List (List Char) → List UInt8 → Except Fault (List UInt8)
  | [], before => return before
  | label :: labels, before => do
    let octets ← encodeLabel name label
    appendLabels name labels (before ++ octets)

/-- A name written behind other octets; its size is by how much they have grown. -/
def appendName (before : List UInt8) (text : String) : Except Fault (List UInt8) := do
  let name := Name.stripDot text
  let grown ← appendLabels name (nameLabels text) before
  let closed := grown ++ [0]
  if maxName < closed.length - before.length then throw (.nameTooLong name)
  else return closed

theorem appendLabels_eq (name : String) (labels : List (List Char)) (before : List UInt8) :
    appendLabels name labels before =
      (labels.mapM (encodeLabel name)).map fun parts => before ++ parts.flatten := by
  induction labels generalizing before with
  | nil => simp [appendLabels, Except.map, pure, Except.pure]
  | cons label labels ih =>
    rw [appendLabels, List.mapM_cons]
    cases encodeLabel name label with
    | error fault => rfl
    | ok octets =>
      rw [ok_bind, ih, ok_bind]
      cases labels.mapM (encodeLabel name) with
      | error fault => rfl
      | ok parts => simp [Except.map, bind, Except.bind, pure, Except.pure]

theorem encodeLabels_eq (text : String) :
    encodeLabels (Name.stripDot text) =
      ((nameLabels text).mapM (encodeLabel (Name.stripDot text))).map List.flatten := by
  unfold encodeLabels nameLabels
  rw [Name.toList_stripDot]
  dsimp only
  split
  · rfl
  · cases (Name.pieces _).mapM (encodeLabel (Name.stripDot text)) <;> rfl

/-- Other octets before a name make no difference to it. -/
theorem appendName_eq (before : List UInt8) (text : String) :
    appendName before text = (encodeName text).map (before ++ ·) := by
  unfold appendName encodeName
  dsimp only
  rw [encodeLabels_eq, appendLabels_eq]
  cases (nameLabels text).mapM (encodeLabel (Name.stripDot text)) with
  | error fault => rfl
  | ok parts =>
    have hsize : (before ++ parts.flatten ++ [0]).length - before.length =
        parts.flatten.length + 1 := by
      simp only [List.length_append, List.length_singleton]
      omega
    simp only [Except.map, ok_bind, hsize]
    split
    · rfl
    · simp [pure, Except.pure]

/-! ### Legal names -/

/-- The text is empty, or it is a sequence of labels with dots between them; the labels are short
enough, and so are all of them together with their lengths and the closing zero. -/
def IsLegalName (name : String) : Prop :=
  name = "" ∨ ∃ labels, labels ≠ [] ∧ name.toList = Name.join labels ∧
    (∀ label ∈ labels, IsLabel label ∧ '.' ∉ label) ∧
    (labels.map fun label => (utf8 (String.ofList label)).length + 1).sum + 1 ≤ maxName

theorem length_flatMap_labelOctets (labels : List (List Char)) :
    (labels.flatMap labelOctets).length =
      (labels.map fun label => (utf8 (String.ofList label)).length + 1).sum :=
  List.length_flatMap

theorem stripDotChars_eq_nil_iff {text : String} :
    Name.stripDotChars text.toList = [] ↔ Name.stripDot text = "" := by
  rw [← Name.toList_stripDot, String.toList_eq_nil_iff]

theorem exists_encodeName_iff {text : String} :
    (∃ octets, encodeName text = .ok octets) ↔ IsLegalName (Name.stripDot text) := by
  simp only [encodeName_eq_ok, length_flatMap_labelOctets]
  by_cases hroot : Name.stripDotChars text.toList = []
  · have hlabels : nameLabels text = [] := if_pos hroot
    simp [hlabels, IsLegalName, stripDotChars_eq_nil_iff.1 hroot, maxName]
  · constructor
    · intro h
      obtain ⟨_, hlabels, hsize, -⟩ := h
      have hjoin := join_nameLabels text
      refine .inr ⟨nameLabels text, ?_, ?_, ?_, hsize⟩
      · intro hnil
        rw [hnil] at hjoin
        exact hroot hjoin.symm
      · rw [hjoin, Name.toList_stripDot]
      · exact fun label hlabel => ⟨hlabels label hlabel, dot_not_mem_of_mem_nameLabels hlabel⟩
    · intro h
      obtain hempty | ⟨labels, hne, hjoin, hall, hsize⟩ := h
      · exact absurd (stripDotChars_eq_nil_iff.2 hempty) hroot
      · have hlabels : nameLabels text = labels := by
          rw [Name.toList_stripDot] at hjoin
          simp only [nameLabels, if_neg hroot]
          rw [hjoin, Name.pieces_join hne fun label hlabel => (hall label hlabel).2]
        rw [hlabels]
        exact ⟨_, fun label hlabel => (hall label hlabel).1, hsize, rfl⟩

/-- A text can be written behind any octets exactly if it is legal as a name but for a closing dot.
What is then read from there is the text without that dot, and the place where the name ends. -/
theorem writes_exactly_legal_names (text : String) (before behind : List UInt8) :
    ((∃ written, appendName before text = .ok written) ↔ IsLegalName (Name.stripDot text)) ∧
    ∀ written, appendName before text = .ok written →
      ∃ octets, encodeName text = .ok octets ∧ written = before ++ octets ∧
        decodeName (written ++ behind) before.length =
          .ok (Name.stripDot text, before.length + octets.length) := by
  have happend : ∀ written, appendName before text = .ok written ↔
      ∃ octets, encodeName text = .ok octets ∧ written = before ++ octets := by
    intro written
    rw [appendName_eq]
    cases encodeName text <;> simp [Except.map, eq_comm]
  constructor
  · rw [← exists_encodeName_iff]
    simp only [happend]
    constructor
    · intro h
      obtain ⟨_, octets, hoctets, -⟩ := h
      exact ⟨octets, hoctets⟩
    · intro h
      obtain ⟨octets, hoctets⟩ := h
      exact ⟨_, octets, hoctets, rfl⟩
  · intro written h
    obtain ⟨octets, hoctets, rfl⟩ := (happend written).1 h
    refine ⟨octets, hoctets, rfl, ?_⟩
    have hat : HasAt (before ++ octets ++ behind) before.length octets := ⟨before, behind, rfl, rfl⟩
    exact decodeName_of_hasAt hoctets hat

theorem accented_name_read_where_written :
    ∃ octets, encodeName "bücher.example." = .ok octets ∧
      decodeName ([1, 2, 3] ++ octets ++ [192]) 3 =
        .ok ("bücher.example", 3 + octets.length) := by
  have hwritten : (appendName [1, 2, 3] "bücher.example.").toBool = true := by decide +kernel
  cases happend : appendName [1, 2, 3] "bücher.example." with
  | error fault =>
    rw [happend] at hwritten
    cases hwritten
  | ok written =>
    obtain ⟨-, hback⟩ := writes_exactly_legal_names "bücher.example." [1, 2, 3] [192]
    obtain ⟨octets, hoctets, rfl, hread⟩ := hback written happend
    exact ⟨octets, hoctets, hread⟩

end IterativeDns.Wire
