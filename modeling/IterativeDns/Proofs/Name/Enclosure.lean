import IterativeDns.Proofs.Name.Zones
import IterativeDns.Question
import Mathlib.Data.List.Chain

/-!
# Enclosing zones

What encloses a name is told in two ways. A walk towards the root takes the zones from a list
(`Name.zones`), which comes from cutting the name behind its dots; whether a nameserver lies in the
zone it serves is decided by the end of its name alone (`Name.isWithin`). **A name is within a zone
exactly if the zone is on its list, letter case aside** (`within_iff_listed`).

Nothing is assumed of the texts. They may be empty, start or end with a dot, or have dots that
meet: each dot is a cut of its own, and what stands behind it is a zone even where a label is
missing.
-/

namespace IterativeDns

namespace Name

open Text

/-! ### One cut -/

/-- What stands behind the first dot; nothing if there is no dot. -/
def afterDot (cs : List Char) : List Char :=
  (cs.dropWhile (· ≠ '.')).drop 1

theorem afterDot_cons (c : Char) (cs : List Char) :
    afterDot (c :: cs) = if c = '.' then cs else afterDot cs := by
  by_cases hc : c = '.' <;> simp [afterDot, hc]

theorem length_afterDot_le (cs : List Char) : (afterDot cs).length ≤ cs.length := by
  have hrest := (List.dropWhile_suffix (l := cs) (· ≠ '.')).length_le
  rw [afterDot, List.length_drop]
  omega

theorem length_afterDot_lt {cs : List Char} (h : cs ≠ []) :
    (afterDot cs).length < cs.length := by
  cases cs with
  | nil => exact absurd rfl h
  | cons c cs =>
    have hrest := length_afterDot_le cs
    rw [afterDot_cons, List.length_cons]
    split <;> omega

/-- The zone is what stands behind the first dot of the name, or the root if the name has none. -/
def IsParent (name zone : String) : Prop :=
  (∃ label, '.' ∉ label ∧ name.toList = label ++ '.' :: zone.toList) ∨
    '.' ∉ name.toList ∧ zone = ""

theorem isParent_afterDot (cs : List Char) :
    IsParent (String.ofList cs) (String.ofList (afterDot cs)) := by
  simp only [IsParent, String.toList_ofList]
  induction cs with
  | nil => exact .inr ⟨List.not_mem_nil, rfl⟩
  | cons c cs ih =>
    rw [afterDot_cons]
    by_cases hc : c = '.'
    · rw [if_pos hc]
      exact .inl ⟨[], List.not_mem_nil, by rw [hc]; rfl⟩
    · rw [if_neg hc]
      rcases ih with ⟨label, hlabel, hcs⟩ | ⟨hno, hroot⟩
      · refine .inl ⟨c :: label, by simp [Ne.symm hc, hlabel], ?_⟩
        rw [List.cons_append, ← hcs]
      · exact .inr ⟨by simp [Ne.symm hc, hno], hroot⟩

/-! ### The list of zones, cut by cut -/

theorem endsAfterDot_eq (cs : List Char) :
    endsAfterDot cs =
      (if afterDot cs = [] then [] else [afterDot cs]) ++ endsAfterDot (afterDot cs) := by
  induction cs with
  | nil => rfl
  | cons c cs ih =>
    rw [afterDot_cons, endsAfterDot]
    by_cases hc : c = '.'
    · by_cases hnil : cs = []
      · simp [hc, hnil, endsAfterDot]
      · simp [hc, hnil]
    · rw [if_neg fun h => hc h.1, if_neg hc, ih]

/-- The list begins with the text and goes on with what stands behind its first dot. -/
theorem zoneChars_eq (cs : List Char) :
    zoneChars cs = if cs = [] then [[]] else cs :: zoneChars (afterDot cs) := by
  by_cases hnil : cs = []
  · rw [if_pos hnil, hnil]
    rfl
  · rw [if_neg hnil, zoneChars, if_neg hnil, endsAfterDot_eq]
    rfl

theorem head?_zoneChars (cs : List Char) : (zoneChars cs).head? = some cs := by
  rw [zoneChars_eq]
  split
  · next hnil => rw [hnil]; rfl
  · rfl

theorem isChain_zoneChars (cs : List Char) :
    (zoneChars cs).IsChain fun name zone =>
      IsParent (String.ofList name) (String.ofList zone) := by
  rw [zoneChars_eq]
  split
  · exact .singleton _
  · rw [List.isChain_cons, head?_zoneChars]
    refine ⟨?_, isChain_zoneChars (afterDot cs)⟩
    intro zone hzone
    rw [← Option.some.inj hzone]
    exact isParent_afterDot cs
termination_by cs.length
decreasing_by exact length_afterDot_lt ‹_›

/-! ### Which zones are listed -/

theorem mem_endsAfterDot {cs z : List Char} :
    z ∈ endsAfterDot cs ↔ z ≠ [] ∧ ('.' :: z) <:+ cs := by
  induction cs with
  | nil => simp [endsAfterDot]
  | cons c cs ih =>
    rw [endsAfterDot, List.suffix_cons_iff, List.cons.injEq]
    by_cases hcut : c = '.' ∧ cs ≠ []
    · rw [if_pos hcut, List.mem_cons, ih]
      constructor
      · intro h
        obtain rfl | ⟨hz, hsuffix⟩ := h
        · exact ⟨hcut.2, .inl ⟨hcut.1.symm, rfl⟩⟩
        · exact ⟨hz, .inr hsuffix⟩
      · intro h
        obtain ⟨hz, ⟨-, rfl⟩ | hsuffix⟩ := h
        · exact .inl rfl
        · exact .inr ⟨hz, hsuffix⟩
    · rw [if_neg hcut, ih]
      refine and_congr_right fun hz => (or_iff_right ?_).symm
      intro h
      obtain ⟨hc, rfl⟩ := h
      exact hcut ⟨hc.symm, hz⟩

/-- The zones are the root, the name itself, and all that stands behind one of its dots. -/
theorem mem_zones_iff {name z : String} :
    z ∈ zones name ↔ z = "" ∨ z = name ∨ ('.' :: z.toList) <:+ name.toList := by
  have hroot : z.toList = [] ↔ z = "" := String.toList_eq_nil_iff
  have hself : z.toList = name.toList ↔ z = name := String.toList_inj
  have hmem : z ∈ zones name ↔ z.toList ∈ zoneChars name.toList := by
    rw [zones, List.mem_map]
    constructor
    · intro h
      obtain ⟨cs, hcs, rfl⟩ := h
      rwa [String.toList_ofList]
    · exact fun h => ⟨z.toList, h, String.ofList_toList⟩
  rw [hmem, zoneChars, List.mem_append, List.mem_append, mem_endsAfterDot, List.mem_singleton,
    hroot]
  split
  · next hname =>
    -- the name is the root, so there is nothing to cut
    rw [hname, List.suffix_nil, String.toList_eq_nil_iff.1 hname]
    simp
  · rw [List.mem_singleton, hself]
    by_cases hz : z = ""
    · simp [hz]
    · simp [hz, hroot]

/-- The root is listed once, at the end. -/
theorem root_not_mem_dropLast_zones (name : String) : "" ∉ (zones name).dropLast := by
  rw [zones, zoneChars, List.map_append, List.map_singleton, List.dropLast_concat, List.mem_map]
  intro h
  obtain ⟨cs, hcs, hroot⟩ := h
  obtain rfl : cs = [] := by rw [← String.toList_ofList (l := cs), hroot]; rfl
  rcases List.mem_append.1 hcs with hself | hend
  · split at hself
    · cases hself
    · next hname => exact hname (List.mem_singleton.1 hself).symm
  · exact (mem_endsAfterDot.1 hend).1 rfl

/-! ### The end of a name -/

theorem isWithin_iff_exists_zone {name zone : String} :
    isWithin name zone = true ↔ ∃ z ∈ zones name, sameLetters z zone = true := by
  simp only [isWithin, Bool.or_eq_true, List.isEmpty_iff, String.toList_eq_nil_iff, beq_iff_eq,
    List.isSuffixOf_iff_suffix, mem_zones_iff, sameLetters_iff]
  constructor
  · intro h
    obtain (rfl | hsame) | hend := h
    · exact ⟨"", .inl rfl, rfl⟩
    · exact ⟨name, .inr (.inl rfl), hsame⟩
    · -- the dot in front of the zone is a dot of the name, whatever the letters behind it
      obtain ⟨cut, hcut, hlower⟩ := List.suffix_map_iff.1 hend
      cases cut with
      | nil => cases hlower
      | cons c cs =>
        obtain ⟨hdot, hletters⟩ := List.cons.inj hlower
        rw [toLower_eq_dot_iff.1 hdot.symm] at hcut
        refine ⟨String.ofList cs, .inr (.inr ?_), ?_⟩
        · rwa [String.toList_ofList]
        · rw [lower, String.toList_ofList, hletters]
  · intro h
    obtain ⟨z, rfl | rfl | hend, hsame⟩ := h
    · refine .inl (.inl (String.toList_eq_nil_iff.1 ?_))
      exact List.map_eq_nil_iff.1 hsame.symm
    · exact .inl (.inr hsame)
    · refine .inr ?_
      rw [← hsame]
      exact hend.map Char.toLower

/-! ### Main result -/

/-- A name is within a zone exactly if one of the zones listed for it is that zone, letter case
aside. The list begins with the name and ends with the root, which is nowhere else on it, and of two
neighbours the later one is what stands behind the first dot of the earlier one. -/
theorem within_iff_listed (q : Question) :
    (∀ zone, isWithin q.name zone = true ↔ ∃ z ∈ q.zones, sameLetters z zone = true) ∧
    q.zones.head? = some q.name ∧
    q.zones.getLast? = some "" ∧
    "" ∉ q.zones.dropLast ∧
    q.zones.IsChain IsParent := by
  refine ⟨fun zone => isWithin_iff_exists_zone, ?_, ?_, ?_, ?_⟩
  · rw [Question.zones, zones, List.head?_map, head?_zoneChars, Option.map_some,
      String.ofList_toList]
  · simp [Question.zones, zones, zoneChars]
  · exact root_not_mem_dropLast_zones q.name
  · rw [Question.zones, zones, List.isChain_map]
    exact isChain_zoneChars q.name.toList

-- dots that meet, and a dot at the end, are cuts like any other
example : zones "a..b." = ["a..b.", ".b.", "b.", ""] := by decide

end Name

end IterativeDns
