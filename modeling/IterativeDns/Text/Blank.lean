/-!
# Blank characters

The characters with the Unicode property `White_Space`, and the text left when they are
taken off both ends. A name typed with a no-break or an ideographic space around it is the
same name without it, so ASCII blanks alone would be too few.

Main facts: every blank of the ASCII class is blank here (`isBlank_of_isWhitespace`), and
trimming twice is trimming once (`trimChars_trimChars`).
-/

namespace IterativeDns.Text

/-- The twenty-five characters with the property `White_Space`. -/
def isBlank (c : Char) : Bool :=
  let n := c.toNat
  (0x9 ≤ n && n ≤ 0xD) || n == 0x20 || n == 0x85 || n == 0xA0 || n == 0x1680
    || (0x2000 ≤ n && n ≤ 0x200A) || n == 0x2028 || n == 0x2029 || n == 0x202F
    || n == 0x205F || n == 0x3000

theorem isBlank_of_isWhitespace {c : Char} (h : c.isWhitespace = true) : isBlank c = true := by
  simp only [Char.isWhitespace, Bool.or_eq_true, decide_eq_true_eq] at h
  rcases h with ((rfl | rfl) | rfl) | rfl <;> decide

/-- Drops the blanks at the end of a text. -/
def trimEndChars (cs : List Char) : List Char :=
  (cs.reverse.dropWhile isBlank).reverse

/-- Drops the blanks at both ends of a text. -/
def trimChars (cs : List Char) : List Char :=
  trimEndChars (cs.dropWhile isBlank)

def trim (s : String) : String :=
  String.ofList (trimChars s.toList)

/-- A text is blank when nothing is left of it after trimming. -/
def isAllBlank (s : String) : Bool :=
  s.toList.all isBlank

@[simp] theorem toList_trim (s : String) : (trim s).toList = trimChars s.toList := by
  simp [trim]

/-! ### Trimming is idempotent -/

theorem dropWhile_eq_self_of_head {p : Char → Bool} :
    ∀ {cs : List Char}, (∀ c ∈ cs.head?, p c = false) → cs.dropWhile p = cs
  | [], _ => rfl
  | c :: cs, h => by simp [h c (by simp)]

theorem head?_dropWhile_isBlank (cs : List Char) :
    ∀ c ∈ (cs.dropWhile isBlank).head?, isBlank c = false := by
  intro c hc
  have := List.head?_dropWhile_not isBlank cs
  revert this
  rw [hc]
  simp

theorem trimEndChars_trimEndChars (cs : List Char) :
    trimEndChars (trimEndChars cs) = trimEndChars cs := by
  unfold trimEndChars
  rw [List.reverse_reverse, dropWhile_eq_self_of_head (head?_dropWhile_isBlank _)]

/-- The characters that stay after trimming the end are a front part of the text. -/
theorem trimEndChars_isPrefix (cs : List Char) : trimEndChars cs <+: cs := by
  unfold trimEndChars
  have h := List.dropWhile_suffix isBlank (l := cs.reverse)
  simpa using List.reverse_prefix.2 h

theorem trimChars_trimChars (cs : List Char) : trimChars (trimChars cs) = trimChars cs := by
  have hfront : (trimChars cs).dropWhile isBlank = trimChars cs := by
    apply dropWhile_eq_self_of_head
    intro c hc
    apply head?_dropWhile_isBlank cs
    obtain ⟨t, ht⟩ := trimEndChars_isPrefix (cs.dropWhile isBlank)
    rw [← ht]
    unfold trimChars at hc
    cases hs : trimEndChars (cs.dropWhile isBlank) with
    | nil => simp [hs] at hc
    | cons d ds => simpa [hs] using hc
  unfold trimChars at hfront ⊢
  rw [hfront, trimEndChars_trimEndChars]

end IterativeDns.Text
