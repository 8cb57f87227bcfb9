import IterativeDns.Proofs.Name.Labels
import IterativeDns.Proofs.Wire.Spelling

/-!
# Zones around a name

The zones around a name are found by cutting the text of the name behind its dots, and each cut is
read as a name of its own. For a clean name, one of non-empty labels without blanks, this is what
it should be: **the labels of the zones are the tails of its labels** (`IsClean.exists_zone_iff`).

For other names a cut may lose blanks or a dot when it is read. It still has no more labels than
the cuts before it (`pairwise_zones_labelCount`).
-/

namespace IterativeDns

/-! ### Trimmed ends of a text -/

namespace Text

theorem dropWhile_isSuffix {u v : List Char} (h : u <:+ v) (p : Char → Bool) :
    u.dropWhile p <:+ v.dropWhile p := by
  obtain ⟨x, rfl⟩ := h
  rw [List.dropWhile_append]
  split
  · exact List.suffix_refl _
  · exact (List.dropWhile_suffix p).trans (List.suffix_append _ u)

theorem trimEndChars_isSuffix {u v : List Char} (h : u <:+ v) :
    trimEndChars u <:+ trimEndChars v := by
  obtain ⟨x, rfl⟩ := h
  unfold trimEndChars
  rw [List.reverse_append, List.dropWhile_append]
  split
  · next hnil =>
    rw [List.isEmpty_iff.1 hnil, List.reverse_nil]
    exact List.nil_suffix
  · rw [List.reverse_append, List.reverse_reverse]
    exact List.suffix_append x _

theorem trimChars_isSuffix {u v : List Char} (h : u <:+ v) : trimChars u <:+ trimChars v :=
  trimEndChars_isSuffix (dropWhile_isSuffix h isBlank)

end Text

namespace Name

open Text

/-! ### Labels without regard to letter case -/

/-- The labels of a text. -/
def labelsOf (cs : List Char) : List (List Char) :=
  (pieces cs).filter fun p => !p.isEmpty

def labelCount (name : String) : Nat :=
  (labels name).length

/-- The labels in lower case. -/
def lowerLabels (name : String) : List (List Char) :=
  (labels name).map lower

theorem length_lowerLabels (name : String) : (lowerLabels name).length = labelCount name :=
  List.length_map _

theorem toLower_eq_dot_iff {c : Char} : c.toLower = '.' ↔ c = '.' := by
  constructor
  · intro h
    unfold Char.toLower at h
    split at h
    · next hupper =>
      -- a capital letter has a small letter for its lower case
      have hlow : 65 ≤ c.val.toNat := UInt32.le_iff_toNat_le.1 hupper.1
      have hhigh : c.val.toNat ≤ 90 := UInt32.le_iff_toNat_le.1 hupper.2
      have hval : (c.val.toNat + 32) % 4294967296 = 46 :=
        congrArg (fun d : Char => d.val.toNat) h
      omega
    · exact h
  · rintro rfl
    rfl

theorem pieces_map_toLower (cs : List Char) :
    pieces (cs.map Char.toLower) = (pieces cs).map (List.map Char.toLower) := by
  induction cs with
  | nil => rfl
  | cons c cs ih =>
    rw [List.map_cons, pieces, pieces, ih]
    by_cases hc : c = '.'
    · rw [if_pos (toLower_eq_dot_iff.2 hc), if_pos hc]
      rfl
    · rw [if_neg (fun h => hc (toLower_eq_dot_iff.1 h)), if_neg hc]
      cases pieces cs <;> rfl

theorem labelsOf_map_toLower (cs : List Char) :
    labelsOf (cs.map Char.toLower) = (labelsOf cs).map (List.map Char.toLower) := by
  have hempty : ((fun p : List Char => !p.isEmpty) ∘ List.map Char.toLower) =
      fun p => !p.isEmpty := by
    funext p
    cases p <;> rfl
  rw [labelsOf, pieces_map_toLower, List.filter_map, hempty, labelsOf]

/-- The labels in lower case are those of the name in lower case. -/
theorem lowerLabels_eq (name : String) : lowerLabels name = labelsOf (lower name) := by
  rw [lower, labelsOf_map_toLower, lowerLabels, labels, List.map_map]
  apply List.map_congr_left
  intro p _
  simp [lower]

theorem labelCount_congr {a b : String} (h : lower a = lower b) : labelCount a = labelCount b := by
  rw [← length_lowerLabels, ← length_lowerLabels, lowerLabels_eq, lowerLabels_eq, h]

theorem labelCount_eq (name : String) : labelCount name = (labelsOf name.toList).length :=
  List.length_map _

/-! ### Labels of a part -/

theorem length_labelsOf_le_of_isSuffix {u v : List Char} (h : u <:+ v) :
    (labelsOf u).length ≤ (labelsOf v).length := by
  obtain ⟨x, rfl⟩ := h
  obtain ⟨front, l, r, rest, -, hu, hxu⟩ := pieces_append x u
  rw [labelsOf, labelsOf, hu, hxu, List.filter_append, List.length_append, List.filter_cons,
    List.filter_cons]
  cases r with
  | nil =>
    rw [List.isEmpty_nil, Bool.not_true, if_neg Bool.false_ne_true]
    have hrest : (rest.filter fun p => !p.isEmpty).length ≤
        (((l ++ []) :: rest).filter fun p => !p.isEmpty).length :=
      ((List.sublist_cons_self _ rest).filter _).length_le
    rw [List.filter_cons] at hrest
    omega
  | cons c r =>
    have hne : (l ++ c :: r).isEmpty = false := by simp
    simp only [List.isEmpty_cons, hne, Bool.not_false, if_true, List.length_cons]
    omega

/-- A closing dot closes no label. -/
theorem labelsOf_stripDotChars (cs : List Char) : labelsOf (stripDotChars cs) = labelsOf cs := by
  rw [stripDotChars]
  split
  · next hdot =>
    obtain ⟨front, rfl⟩ := List.getLast?_eq_some_iff.1 hdot
    obtain ⟨before, l, r, rest, hfront, hclose, hboth⟩ := pieces_append front ['.']
    have hrest : r = [] ∧ rest = [[]] := by
      simpa [pieces, eq_comm] using hclose
    rw [List.dropLast_concat, labelsOf, labelsOf, hboth, hfront, hrest.1, hrest.2,
      List.append_nil, List.filter_append, List.filter_append]
    congr 1
  · rfl

/-- Of two ends of a text the shorter one has no more labels, each read as a name. -/
theorem labelCount_normalize_le {z z' : String} (h : z'.toList <:+ z.toList) :
    labelCount (normalize z') ≤ labelCount (normalize z) := by
  simp only [labelCount_eq, toList_normalize, labelsOf_stripDotChars]
  exact length_labelsOf_le_of_isSuffix (trimChars_isSuffix h)

/-! ### Zones -/

theorem isSuffix_of_mem_endsAfterDot {cs z : List Char} (h : z ∈ endsAfterDot cs) : z <:+ cs := by
  induction cs with
  | nil => cases h
  | cons c cs ih =>
    rw [endsAfterDot] at h
    split at h
    · rcases List.mem_cons.1 h with rfl | h
      · exact List.suffix_cons c z
      · exact (ih h).trans (List.suffix_cons c cs)
    · exact (ih h).trans (List.suffix_cons c cs)

theorem pairwise_endsAfterDot (cs : List Char) :
    (endsAfterDot cs).Pairwise fun z z' => z' <:+ z := by
  induction cs with
  | nil => exact .nil
  | cons c cs ih =>
    rw [endsAfterDot]
    split
    · exact List.pairwise_cons.2 ⟨fun _ => isSuffix_of_mem_endsAfterDot, ih⟩
    · exact ih

/-- Each zone around a name is an end of those before it. -/
theorem pairwise_zoneChars (cs : List Char) : (zoneChars cs).Pairwise fun z z' => z' <:+ z := by
  rw [zoneChars, List.append_assoc, List.pairwise_append, List.pairwise_append]
  refine ⟨?_, ⟨pairwise_endsAfterDot cs, List.pairwise_singleton _ _, ?_⟩, ?_⟩
  · split
    · exact .nil
    · exact List.pairwise_singleton _ _
  · intro z _ z' hz'
    rw [List.mem_singleton.1 hz']
    exact List.nil_suffix
  · intro z hz z' hz'
    split at hz
    · cases hz
    · rw [List.mem_singleton.1 hz]
      rcases List.mem_append.1 hz' with hz' | hz'
      · exact isSuffix_of_mem_endsAfterDot hz'
      · rw [List.mem_singleton.1 hz']
        exact List.nil_suffix

/-- The further away a zone is, the fewer labels it has. -/
theorem pairwise_zones_labelCount (name : String) :
    ((zones name).map normalize).Pairwise fun z z' => labelCount z' ≤ labelCount z := by
  rw [zones, List.map_map, List.pairwise_map]
  refine (pairwise_zoneChars name.toList).imp ?_
  intro z z' h
  apply labelCount_normalize_le
  rwa [String.toList_ofList, String.toList_ofList]

/-! ### Clean names -/

/-- No blank and no empty label stands in the name; the root has no label at all. -/
structure IsClean (name : String) : Prop where
  noBlank : ∀ c ∈ name.toList, isBlank c = false
  noGap : name.toList = [] ∨ [] ∉ pieces name.toList

instance (name : String) : Decidable (IsClean name) :=
  decidable_of_iff ((name.toList.all fun c => !isBlank c) = true ∧
    (name.toList = [] ∨ [] ∉ pieces name.toList))
    ⟨fun h => ⟨by simpa using h.1, h.2⟩, fun h => ⟨by simpa using h.noBlank, h.noGap⟩⟩

theorem IsClean.getLast?_ne {name : String} (h : IsClean name) :
    name.toList.getLast? ≠ some '.' := by
  intro hdot
  rcases h.noGap with hnil | hgap
  · rw [hnil] at hdot
    cases hdot
  · exact hgap (nil_mem_pieces.2 (.inr (.inr (.inl hdot))))

theorem IsClean.normalize_eq {name : String} (h : IsClean name) : normalize name = name := by
  refine normalize_eq_self_iff.2 ⟨fun c hc => h.noBlank c (List.mem_of_mem_head? hc), ?_⟩
  intro c hc
  refine ⟨h.noBlank c (List.mem_of_mem_getLast? hc), ?_⟩
  rintro rfl
  exact h.getLast?_ne hc

/-- The labels of a clean name are all of its pieces. -/
theorem IsClean.labelsOf_eq {name : String} (h : IsClean name) (hne : name.toList ≠ []) :
    labelsOf name.toList = pieces name.toList := by
  refine List.filter_eq_self.2 ?_
  intro p hp
  cases p with
  | nil => exact absurd hp (h.noGap.resolve_left hne)
  | cons c p => rfl

theorem IsClean.join_lowerLabels {name : String} (h : IsClean name) :
    join (lowerLabels name) = lower name := by
  rw [lowerLabels_eq, lower]
  by_cases hne : name.toList = []
  · rw [hne]
    rfl
  · rw [labelsOf_map_toLower, h.labelsOf_eq hne, ← pieces_map_toLower, join_pieces]

/-- Clean names with the same labels are the same. -/
theorem IsClean.lower_eq {a b : String} (ha : IsClean a) (hb : IsClean b)
    (h : lowerLabels a = lowerLabels b) : lower a = lower b := by
  rw [← ha.join_lowerLabels, ← hb.join_lowerLabels, h]

theorem map_pieces_endsAfterDot {cs : List Char} (h : cs.getLast? ≠ some '.') :
    (endsAfterDot cs).map pieces ++ [[]] = (pieces cs).tail.tails := by
  induction cs with
  | nil => rfl
  | cons c cs ih =>
    cases cs with
    | nil =>
      have hc : c ≠ '.' := fun hc => h (by rw [hc]; rfl)
      simp [endsAfterDot, pieces, hc]
    | cons d ds =>
      rw [List.getLast?_cons_cons] at h
      have hrest := ih h
      obtain ⟨p, ps, hps⟩ := List.exists_cons_of_ne_nil (pieces_ne_nil (d :: ds))
      rw [hps] at hrest
      by_cases hc : c = '.'
      · rw [endsAfterDot, if_pos ⟨hc, List.cons_ne_nil d ds⟩, pieces, if_pos hc, List.tail_cons,
          hps, List.tails_cons, List.map_cons, hps, List.cons_append, hrest]
        rfl
      · rw [endsAfterDot, if_neg (fun hcut => hc hcut.1), pieces, if_neg hc, hps, hrest]
        rfl

theorem IsClean.map_labelsOf_zoneChars {name : String} (h : IsClean name) :
    (zoneChars name.toList).map labelsOf = (labelsOf name.toList).tails := by
  by_cases hne : name.toList = []
  · rw [hne]
    rfl
  · have hcuts := map_pieces_endsAfterDot h.getLast?_ne
    obtain ⟨p, ps, hps⟩ := List.exists_cons_of_ne_nil (pieces_ne_nil name.toList)
    have hfilter : ∀ t ∈ (pieces name.toList).tails, t.filter (fun p => !p.isEmpty) = t := by
      intro t ht
      have hall := List.filter_eq_self.1 (h.labelsOf_eq hne)
      exact List.filter_eq_self.2 fun p hp => hall p ((List.mem_tails t _).1 ht |>.mem hp)
    calc (zoneChars name.toList).map labelsOf
        = ((pieces name.toList :: (endsAfterDot name.toList).map pieces) ++ [[]]).map
            (List.filter fun p => !p.isEmpty) := by
          simp [zoneChars, hne, labelsOf, pieces, Function.comp_def]
      _ = (pieces name.toList).tails.map (List.filter fun p => !p.isEmpty) := by
          rw [List.cons_append, hcuts, hps, List.tail_cons, List.tails_cons]
      _ = (pieces name.toList).tails := (List.map_congr_left hfilter).trans (List.map_id _)
      _ = (labelsOf name.toList).tails := by
          rw [h.labelsOf_eq hne]

/-- The labels of the zones around a clean name are the tails of its labels. -/
theorem IsClean.exists_zone_iff {name : String} (h : IsClean name) {ls : List (List Char)} :
    (∃ z ∈ zones name, lowerLabels z = ls) ↔ ls <:+ lowerLabels name := by
  have hzone : ∀ cs, lowerLabels (String.ofList cs) =
      (labelsOf cs).map (List.map Char.toLower) := by
    intro cs
    rw [lowerLabels_eq, lower, String.toList_ofList, labelsOf_map_toLower]
  have hname : lowerLabels name = (labelsOf name.toList).map (List.map Char.toLower) := by
    rw [← hzone, String.ofList_toList]
  rw [hname, List.suffix_map_iff]
  constructor
  · rintro ⟨z, hz, rfl⟩
    obtain ⟨cs, hcs, rfl⟩ := List.mem_map.1 hz
    refine ⟨labelsOf cs, (List.mem_tails _ _).1 ?_, hzone cs⟩
    rw [← h.map_labelsOf_zoneChars]
    exact List.mem_map_of_mem hcs
  · rintro ⟨t, ht, rfl⟩
    rw [← List.mem_tails, ← h.map_labelsOf_zoneChars, List.mem_map] at ht
    obtain ⟨cs, hcs, rfl⟩ := ht
    exact ⟨String.ofList cs, List.mem_map_of_mem hcs, hzone cs⟩

/-- The zones around a clean name are clean. -/
theorem IsClean.of_mem_zones {name z : String} (h : IsClean name) (hz : z ∈ zones name) :
    IsClean z := by
  obtain ⟨cs, hcs, rfl⟩ := List.mem_map.1 hz
  rw [zoneChars, List.mem_append, List.mem_append, List.mem_singleton] at hcs
  rcases hcs with (hcs | hcs) | rfl
  · split at hcs
    · cases hcs
    · rw [List.mem_singleton.1 hcs, String.ofList_toList]
      exact h
  · have hsuffix := isSuffix_of_mem_endsAfterDot hcs
    refine ⟨fun c hc => h.noBlank c (hsuffix.mem (by rwa [String.toList_ofList] at hc)), .inr ?_⟩
    have hmem : pieces cs ∈ (pieces name.toList).tail.tails := by
      rw [← map_pieces_endsAfterDot h.getLast?_ne]
      exact List.mem_append_left _ (List.mem_map_of_mem hcs)
    have hne : name.toList ≠ [] := by
      intro hnil
      rw [hnil] at hcs
      cases hcs
    rw [String.toList_ofList]
    intro hgap
    exact h.noGap.resolve_left hne (List.mem_of_mem_tail (((List.mem_tails _ _).1 hmem).mem hgap))
  · exact ⟨by simp, .inl rfl⟩

end Name

end IterativeDns
