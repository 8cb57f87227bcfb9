import IterativeDns.Question
import IterativeDns.Proofs.Name.Zones

/-!
# Letter case in names

Names that differ in the case of letters alone stay so in whatever is done to them: reading a text
as a name, going through the zones around it, testing for a zone. No letter is a blank or a dot,
and neither becomes one, so lower case may be taken before or after (`lower_normalize`,
`forall₂_zones`).
-/

namespace IterativeDns

/-! ### Blanks and dots are no letters -/

namespace Text

theorem isBlank_toLower (c : Char) : isBlank c.toLower = isBlank c := by
  unfold Char.toLower
  split
  · next h =>
    have hlow : 65 ≤ c.val.toNat := UInt32.le_iff_toNat_le.1 h.1
    have hhigh : c.val.toNat ≤ 90 := UInt32.le_iff_toNat_le.1 h.2
    -- neither the capital letters nor the small ones are in any of the ranges of blanks
    have hsmall : (c.val + ('a'.val - 'A'.val)).toNat = c.val.toNat + 32 := by
      rw [UInt32.toNat_add, show ('a'.val - 'A'.val).toNat = 32 from rfl]
      exact Nat.mod_eq_of_lt (by omega)
    simp only [isBlank, Char.toNat, hsmall]
    rw [Bool.eq_iff_iff]
    simp only [Bool.or_eq_true, Bool.and_eq_true, decide_eq_true_eq, beq_iff_eq]
    omega
  · rfl

theorem dropWhile_isBlank_map_toLower (cs : List Char) :
    (cs.map Char.toLower).dropWhile isBlank = (cs.dropWhile isBlank).map Char.toLower := by
  induction cs with
  | nil => rfl
  | cons c cs ih =>
    rw [List.map_cons, List.dropWhile_cons, List.dropWhile_cons, isBlank_toLower, ih]
    split <;> rfl

theorem trimChars_map_toLower (cs : List Char) :
    trimChars (cs.map Char.toLower) = (trimChars cs).map Char.toLower := by
  rw [trimChars, trimChars, dropWhile_isBlank_map_toLower, trimEndChars, trimEndChars,
    ← List.map_reverse, dropWhile_isBlank_map_toLower, List.map_reverse]

end Text

namespace Name

open Text

theorem stripDotChars_map_toLower (cs : List Char) :
    stripDotChars (cs.map Char.toLower) = (stripDotChars cs).map Char.toLower := by
  have hdot : (cs.map Char.toLower).getLast? = some '.' ↔ cs.getLast? = some '.' := by
    rw [List.getLast?_map, Option.map_eq_some_iff]
    simp only [toLower_eq_dot_iff, exists_eq_right]
  simp only [stripDotChars, hdot, ← List.map_dropLast]
  split <;> rfl

/-- The lower case of the name meant by a text is made of the lower case of the text. -/
theorem lower_normalize (s : String) :
    lower (normalize s) = stripDotChars (trimChars (lower s)) := by
  rw [lower, toList_normalize, ← stripDotChars_map_toLower, ← trimChars_map_toLower, lower]

theorem lower_normalize_congr {a b : String} (h : lower a = lower b) :
    lower (normalize a) = lower (normalize b) := by
  rw [lower_normalize, lower_normalize, h]

/-! ### Zones -/

theorem endsAfterDot_map_toLower (cs : List Char) :
    endsAfterDot (cs.map Char.toLower) = (endsAfterDot cs).map (List.map Char.toLower) := by
  induction cs with
  | nil => rfl
  | cons c cs ih =>
    simp only [List.map_cons, endsAfterDot, toLower_eq_dot_iff, Ne, List.map_eq_nil_iff, ih]
    split <;> rfl

theorem zoneChars_map_toLower (cs : List Char) :
    zoneChars (cs.map Char.toLower) = (zoneChars cs).map (List.map Char.toLower) := by
  simp only [zoneChars, endsAfterDot_map_toLower, List.map_append, List.map_eq_nil_iff]
  split <;> rfl

theorem map_lower_zones (name : String) : (zones name).map lower = zoneChars (lower name) := by
  rw [lower, zoneChars_map_toLower, zones, List.map_map]
  apply List.map_congr_left
  intro cs _
  simp [lower]

/-- The zones around names that differ in letter case alone differ in letter case alone. -/
theorem forall₂_zones {a b : String} (h : lower a = lower b) :
    List.Forall₂ (fun z z' => lower z = lower z') (zones a) (zones b) := by
  have hmap : (zones a).map lower = (zones b).map lower := by
    rw [map_lower_zones, map_lower_zones, h]
  rwa [← List.forall₂_eq_eq_eq, List.forall₂_map_left_iff, List.forall₂_map_right_iff] at hmap

theorem isWithin_congr {a b y z : String} (hname : lower a = lower b) (hzone : lower y = lower z) :
    isWithin a y = isWithin b z := by
  have hempty : y.toList.isEmpty = z.toList.isEmpty := by
    have hiff := congrArg List.isEmpty hzone
    rwa [lower, lower, List.isEmpty_map, List.isEmpty_map] at hiff
  rw [isWithin, isWithin, hempty, hname, hzone]

end Name

/-! ### Questions -/

namespace Question

theorem lower_eq_of_key_eq {p q : Question} (h : p.key = q.key) :
    Text.lower p.name = Text.lower q.name :=
  congrArg Prod.fst h

theorem recordType_eq_of_key_eq {p q : Question} (h : p.key = q.key) :
    p.recordType = q.recordType :=
  congrArg (fun key => key.2.1) h

theorem recordClass_eq_of_key_eq {p q : Question} (h : p.key = q.key) :
    p.recordClass = q.recordClass :=
  congrArg (fun key => key.2.2) h

theorem key_withType_congr {p q : Question} (h : p.key = q.key) (t : RecordType) :
    (p.withType t).key = (q.withType t).key := by
  simp only [key, withType, lower_eq_of_key_eq h, recordClass_eq_of_key_eq h]

theorem key_ofText_congr {a b : String} (h : Text.lower a = Text.lower b) (t : RecordType)
    (recordClass : RecordClass) : (ofText a t recordClass).key = (ofText b t recordClass).key := by
  simp only [key, ofText, Name.lower_normalize_congr h]

end Question

end IterativeDns
