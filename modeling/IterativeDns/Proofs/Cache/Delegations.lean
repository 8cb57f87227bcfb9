import IterativeDns.Proofs.Cache.Readings
import IterativeDns.Proofs.Name.Zones

/-!
# The closest delegation

Which nameserver records a cache gives for a question, said without the search for them: those of
the closest zone around the question that has any which are still good (`Closest`,
`WellFormed.closest_of_mem_bestNameservers`). For clean names the closest of the zones is the one
with the most labels (`Closest.labelCount_le`).

As long as what is good stays good, the closest zone only comes nearer
(`Closest.labelCount_mono`).
-/

namespace IterativeDns

open Text (lower)

/-- The names of the zones around a question: its own name first, the root last. -/
def Question.zoneNames (q : Question) : List String :=
  q.zones.map Name.normalize

/-- The owner of a record is clean, and so is the name it points at. -/
structure Record.IsClean (r : Record) : Prop where
  owner : Name.IsClean r.name
  target : ∀ target, r.target? = some target → Name.IsClean target

instance (r : Record) : Decidable r.IsClean :=
  decidable_of_iff (Name.IsClean r.name ∧ ∀ target ∈ r.target?, Name.IsClean target)
    ⟨fun h => ⟨h.1, h.2⟩, fun h => ⟨h.owner, h.target⟩⟩

namespace Cache

variable {now : Instant} {c d : Cache} {q : Question} {ns r : Record}

/-- A nameserver record of the class of a question that is kept and still good. -/
structure GoodNs (now : Instant) (c : Cache) (q : Question) (r : Record) : Prop where
  held : r ∈ c.records
  isNs : r.recordType = .ns
  sameClass : r.question.recordClass = q.recordClass
  good : r.isExpired now = false

/-- A nameserver record of the closest zone around a question that has any which is still good. -/
structure Closest (now : Instant) (c : Cache) (q : Question) (ns : Record) : Prop
    extends GoodNs now c q ns where
  zone : ∃ nearer zone further, q.zoneNames = nearer ++ zone :: further ∧
    lower ns.name = lower zone ∧ ∀ r, GoodNs now c q r → ∀ z ∈ nearer, lower r.name ≠ lower z

/-- What a cache shows of the nameservers of a zone. -/
theorem WellFormed.mem_live_ns_iff (hc : c.WellFormed) {zone : String} :
    r ∈ c.live now (.ofText zone .ns q.recordClass) ↔
      GoodNs now c q r ∧ lower r.name = lower (Name.normalize zone) := by
  rw [hc.mem_live]
  constructor
  · intro h
    obtain ⟨hheld, hkey, hgood⟩ := h
    simp only [Question.key, Question.ofText, Prod.mk.injEq] at hkey
    exact ⟨⟨hheld, hkey.2.1, hkey.2.2, hgood⟩, hkey.1⟩
  · intro h
    obtain ⟨⟨hheld, hns, hclass, hgood⟩, hzone⟩ := h
    refine ⟨hheld, ?_, hgood⟩
    simp only [Question.key, Question.ofText, Prod.mk.injEq]
    exact ⟨hzone, hns, hclass⟩

theorem WellFormed.closest_of_mem_bestNameservers (hc : c.WellFormed)
    (h : ns ∈ (c.bestNameservers now q).1) : Closest now c q ns := by
  obtain ⟨nearer, zone, further, hzones, hnearer, hmem⟩ := exists_zone_of_mem_bestNameservers h
  obtain ⟨hns, hzone⟩ := hc.mem_live_ns_iff.1 hmem
  refine ⟨hns, nearer.map Name.normalize, Name.normalize zone, further.map Name.normalize, ?_,
    hzone, ?_⟩
  · rw [Question.zoneNames, hzones, List.map_append, List.map_cons]
  · intro r hr z hz heq
    obtain ⟨x, hx, rfl⟩ := List.mem_map.1 hz
    exact RecordSet.isEmpty_iff_not_exists.1 (hnearer x hx) ⟨r, hc.mem_live_ns_iff.2 ⟨hr, heq⟩⟩

/-- Where some zone around a question has a good nameserver record, there is a closest one. -/
theorem GoodNs.exists_closest (h : GoodNs now c q r) {zone : String} (hzone : zone ∈ q.zoneNames)
    (hr : lower r.name = lower zone) : ∃ ns, Closest now c q ns := by
  classical
  have hsome : ∃ z ∈ q.zoneNames, decide (∃ r, GoodNs now c q r ∧ lower r.name = lower z) = true :=
    ⟨zone, hzone, decide_eq_true ⟨r, h, hr⟩⟩
  obtain ⟨first, hfind⟩ := Option.isSome_iff_exists.1 (List.find?_isSome.2 hsome)
  obtain ⟨hfirst, nearer, further, hzones, hnearer⟩ := List.find?_eq_some_iff_append.1 hfind
  obtain ⟨ns, hns, hname⟩ := of_decide_eq_true hfirst
  refine ⟨ns, hns, nearer, first, further, hzones, hname, ?_⟩
  intro r hr z hz heq
  have := hnearer z hz
  rw [Bool.not_eq_true', decide_eq_false_iff_not] at this
  exact this ⟨r, hr, heq⟩

/-- No zone that has a good nameserver record has more labels than the closest one. -/
theorem Closest.labelCount_le_of_mem (h : Closest now c q ns) (hr : GoodNs now c q r)
    {zone : String} (hzone : zone ∈ q.zoneNames) (hname : lower r.name = lower zone) :
    Name.labelCount r.name ≤ Name.labelCount ns.name := by
  obtain ⟨nearer, first, further, hzones, hfirst, hnearer⟩ := h.zone
  rw [Name.labelCount_congr hname, Name.labelCount_congr hfirst]
  rw [hzones, List.mem_append, List.mem_cons] at hzone
  rcases hzone with hzone | rfl | hzone
  · exact absurd hname (hnearer r hr zone hzone)
  · exact Nat.le_refl _
  · have hpairwise := Name.pairwise_zones_labelCount q.name
    change q.zoneNames.Pairwise _ at hpairwise
    rw [hzones, List.pairwise_append, List.pairwise_cons] at hpairwise
    exact hpairwise.2.1.1 zone hzone

/-! ### Clean names -/

theorem zoneNames_eq_of_isClean (hq : Name.IsClean q.name) : q.zoneNames = q.zones :=
  (List.map_congr_left fun _ hz => (hq.of_mem_zones hz).normalize_eq).trans (List.map_id _)

/-- The closest zone is the name of the question without some of its first labels. -/
theorem Closest.isSuffix (h : Closest now c q ns) (hq : Name.IsClean q.name) :
    Name.lowerLabels ns.name <:+ Name.lowerLabels q.name := by
  obtain ⟨nearer, zone, further, hzones, hname, -⟩ := h.zone
  rw [zoneNames_eq_of_isClean hq] at hzones
  have hmem : zone ∈ q.zones := by simp [hzones]
  rw [Name.lowerLabels_eq, hname, ← Name.lowerLabels_eq]
  exact hq.exists_zone_iff.1 ⟨zone, hmem, rfl⟩

/-- No other such zone with a good nameserver record has more labels. -/
theorem Closest.labelCount_le (h : Closest now c q ns) (hq : Name.IsClean q.name)
    (hr : GoodNs now c q r) (hclean : Name.IsClean r.name)
    (hsuffix : Name.lowerLabels r.name <:+ Name.lowerLabels q.name) :
    Name.labelCount r.name ≤ Name.labelCount ns.name := by
  obtain ⟨zone, hzone, hlabels⟩ := hq.exists_zone_iff.2 hsuffix
  have hname := hclean.lower_eq (hq.of_mem_zones hzone) hlabels.symm
  exact h.labelCount_le_of_mem hr (zoneNames_eq_of_isClean hq ▸ hzone) hname

/-! ### Caches one after the other -/

/-- Where the zone has a good nameserver record later, the closest zone is no further away then. -/
theorem Closest.labelCount_mono (h : Closest now c q ns) {later : Instant}
    (hr : GoodNs later d q r) (hname : lower r.name = lower ns.name) :
    (∃ ns', Closest later d q ns') ∧
      ∀ ns', Closest later d q ns' → Name.labelCount ns.name ≤ Name.labelCount ns'.name := by
  obtain ⟨nearer, zone, further, hzones, hzone, -⟩ := h.zone
  have hmem : zone ∈ q.zoneNames := by simp [hzones]
  refine ⟨hr.exists_closest hmem (hname.trans hzone), ?_⟩
  intro ns' h'
  rw [← Name.labelCount_congr hname]
  exact h'.labelCount_le_of_mem hr hmem (hname.trans hzone)

end Cache

end IterativeDns
