import IterativeDns.Proofs.Wire.Names

/-!
# How names are spelled

`Name.normalize` makes one pass: blanks off both ends, then one closing dot off what is left. What
it leaves may itself close with a blank or a dot, and then a second pass would go on. This module
says when one pass was enough.

* `normalize_normalize_iff`: exactly when neither a blank nor another dot stands before the dot
  that closes the text (`closesLoosely`).
* `normalize_stripDot_iff`: taking a closing dot off first does not help.
-/

namespace IterativeDns

namespace Text

/-! ### Trimmed texts -/

theorem trimEndChars_eq_self_iff {cs : List Char} :
    trimEndChars cs = cs ↔ ∀ c ∈ cs.getLast?, isBlank c = false := by
  constructor
  · intro h c hc
    rw [← h, trimEndChars, List.getLast?_reverse] at hc
    exact head?_dropWhile_isBlank _ c hc
  · intro h
    rw [trimEndChars, dropWhile_eq_self_of_head, List.reverse_reverse]
    intro c hc
    rw [List.head?_reverse] at hc
    exact h c hc

/-- What trimming leaves is a part of the text. -/
theorem trimChars_isInfix (cs : List Char) : trimChars cs <:+: cs :=
  (trimEndChars_isPrefix _).isInfix.trans (List.dropWhile_suffix _).isInfix

/-- Trimming leaves alone what has no blank at either end. -/
theorem trimChars_eq_self_iff {cs : List Char} :
    trimChars cs = cs ↔
      (∀ c ∈ cs.head?, isBlank c = false) ∧ ∀ c ∈ cs.getLast?, isBlank c = false := by
  constructor
  · intro h
    -- nothing is lost at the end, so nothing was lost at the front
    have hfront : cs.dropWhile isBlank = cs := by
      apply (List.dropWhile_suffix isBlank).sublist.antisymm
      conv_lhs => rw [← h]
      exact (trimEndChars_isPrefix _).sublist
    have hend : trimEndChars cs = cs := by
      rw [trimChars, hfront] at h
      exact h
    refine ⟨?_, trimEndChars_eq_self_iff.1 hend⟩
    intro c hc
    rw [← hfront] at hc
    exact head?_dropWhile_isBlank cs c hc
  · intro h
    rw [trimChars, dropWhile_eq_self_of_head h.1, trimEndChars_eq_self_iff.2 h.2]

end Text

namespace Name

open Text

/-! ### Closing dots -/

theorem stripDotChars_isPrefix (cs : List Char) : stripDotChars cs <+: cs := by
  unfold stripDotChars
  split
  · exact List.dropLast_prefix cs
  · exact List.prefix_rfl

theorem stripDotChars_eq_self_iff {cs : List Char} :
    stripDotChars cs = cs ↔ cs.getLast? ≠ some '.' := by
  by_cases h : cs.getLast? = some '.'
  · have hne : cs ≠ [] := by
      rintro rfl
      cases h
    have hpos := List.length_pos_iff.2 hne
    simp only [stripDotChars, h, if_true, ne_eq, not_true_eq_false, iff_false]
    intro heq
    have := congrArg List.length heq
    rw [List.length_dropLast] at this
    omega
  · simp [stripDotChars, h]

/-! ### Normalisation -/

/-- What normalisation leaves is a part of the text. -/
theorem normalize_isInfix (s : String) : (normalize s).toList <:+: s.toList := by
  rw [toList_normalize]
  exact (stripDotChars_isPrefix _).isInfix.trans (trimChars_isInfix _)

/-- A name does not start with a blank. -/
theorem head?_normalize (s : String) :
    ∀ c ∈ (normalize s).toList.head?, isBlank c = false := by
  rw [toList_normalize]
  intro c hc
  have htrimmed := (trimChars_eq_self_iff.1 (trimChars_trimChars s.toList)).1
  apply htrimmed
  obtain ⟨rest, hrest⟩ := stripDotChars_isPrefix (trimChars s.toList)
  rw [← hrest, List.head?_append]
  rw [Option.mem_def] at hc
  rw [hc]
  rfl

/-- Normalisation leaves alone what neither has a blank at an end nor closes with a dot. -/
theorem normalize_eq_self_iff {s : String} :
    normalize s = s ↔
      (∀ c ∈ s.toList.head?, isBlank c = false) ∧
        ∀ c ∈ s.toList.getLast?, isBlank c = false ∧ c ≠ '.' := by
  rw [← String.toList_inj, toList_normalize]
  constructor
  · intro h
    have htrim : trimChars s.toList = s.toList := by
      apply (trimChars_isInfix _).sublist.antisymm
      conv_lhs => rw [← h]
      exact (stripDotChars_isPrefix _).sublist
    rw [htrim, stripDotChars_eq_self_iff] at h
    obtain ⟨hhead, hlast⟩ := trimChars_eq_self_iff.1 htrim
    refine ⟨hhead, fun c hc => ⟨hlast c hc, ?_⟩⟩
    rintro rfl
    exact h hc
  · intro h
    obtain ⟨hhead, hlast⟩ := h
    rw [trimChars_eq_self_iff.2 ⟨hhead, fun c hc => (hlast c hc).1⟩, stripDotChars_eq_self_iff]
    exact fun hdot => (hlast '.' hdot).2 rfl

/-- A name that normalisation changes is also changed by it once a closing dot is off. -/
theorem normalize_stripDot_iff {s : String} :
    normalize (stripDot s) = s ↔ normalize s = s := by
  constructor
  · intro h
    have hstrip : stripDotChars s.toList = s.toList := by
      apply (stripDotChars_isPrefix _).sublist.antisymm
      conv_lhs => rw [← h]
      exact toList_stripDot s ▸ (normalize_isInfix _).sublist
    rwa [stripDot, hstrip, String.ofList_toList] at h
  · intro h
    rwa [stripDot_eq_self (getLast?_ne_dot_of_normalize_eq h)]

/-! ### Texts that one pass does not settle -/

/-- A blank or another dot stands before the dot that closes the text. -/
def closesLoosely (text : String) : Bool :=
  let cs := trimChars text.toList
  cs.getLast? == some '.' && cs.dropLast.getLast?.any fun c => c == '.' || isBlank c

/-- One pass of normalisation settles every text but those. -/
theorem normalize_normalize_iff {text : String} :
    normalize (normalize text) = normalize text ↔ closesLoosely text = false := by
  rw [normalize_eq_self_iff, and_iff_right (head?_normalize text), toList_normalize]
  obtain ⟨-, hlast⟩ := trimChars_eq_self_iff.1 (trimChars_trimChars text.toList)
  by_cases hdot : (trimChars text.toList).getLast? = some '.'
  · cases h : (trimChars text.toList).dropLast.getLast? with
    | none => simp [closesLoosely, stripDotChars, hdot, h]
    | some c => simp [closesLoosely, stripDotChars, hdot, h, and_comm]
  · have hno : closesLoosely text = false := by simp [closesLoosely, hdot]
    simp only [stripDotChars, hdot, if_false, hno, iff_true]
    intro c hc
    refine ⟨hlast c hc, ?_⟩
    rintro rfl
    exact hdot hc

example : closesLoosely "example.com. " = false := by decide
example : closesLoosely "example.com.." = true := by decide
example : closesLoosely "example .com ." = true := by decide

end Name

end IterativeDns
