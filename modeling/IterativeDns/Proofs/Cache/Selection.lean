import IterativeDns.Proofs.Alias.Payloads
import IterativeDns.Proofs.Cache.Delegations

/-!
# Which servers are selected

The two readings of the cache that a lookup begins with, each said as a list with certain members
in a certain order.

* The nameservers of a question are those of the zone with the most labels, of all zones around the
  name that have any which are still good (`mem_bestNameservers_iff`), by target.
* The addresses of some nameservers are the address records with an owner that one of them points
  at (`pointsAt`), first by the nameservers, then by family, then by address
  (`pairwise_knownAddresses`).

**For clean names this is all there is to it** (`selection_is_exact`). The target of a nameserver
that is not clean points at the name that is meant by it, which a search for the target itself would
miss (`pointsAt_iff`).
-/

namespace IterativeDns

open Text (lower)
open Name (lowerLabels labelCount)

/-- Both records have a key, and the first has the smaller one. -/
def Record.Ascending {κ : Type} [Ord κ] (key : Record → Option κ) (a b : Record) : Prop :=
  ∃ x y, key a = some x ∧ key b = some y ∧ compare x y = .lt

/-- The name of a question is the one that is meant by the target of a nameserver record. -/
def Record.pointsAt (ns : Record) (q : Question) : Bool :=
  match ns.target? with
  | some target => lower (Name.normalize target) == lower q.name &&
      ns.question.recordClass == q.recordClass
  | none => false

theorem Record.pointsAt_iff {ns : Record} {q : Question} :
    ns.pointsAt q = true ↔ ∃ target, ns.target? = some target ∧
      lower (Name.normalize target) = lower q.name ∧
      ns.question.recordClass = q.recordClass := by
  unfold pointsAt
  cases ns.target? with
  | none => simp
  | some target => simp

theorem Record.pointsAt_congr {ns : Record} {p q : Question} (h : p.key = q.key) :
    ns.pointsAt p = ns.pointsAt q := by
  simp only [Question.key, Prod.mk.injEq] at h
  simp only [pointsAt, h]

namespace Cache

variable {now : Instant} {c : Cache} {q : Question} {ns r : Record}

/-! ### Sorted lists -/

/-- Where all keys are different ones, sorting leaves no two records without an order. -/
theorem pairwise_mergeSort_ascending {κ : Type} [Ord κ] [Std.TransOrd κ] [Std.LawfulEqOrd κ]
    {key : Record → Option κ} {rs : List Record} (hkey : ∀ r ∈ rs, ∃ x, key r = some x)
    (hdistinct : (rs.map key).Nodup) :
    (rs.mergeSort fun a b => (compare (key a) (key b)).isLE).Pairwise (Record.Ascending key) := by
  have hperm := List.mergeSort_perm rs fun a b => (compare (key a) (key b)).isLE
  have hne := List.pairwise_map.1 ((hperm.map key).nodup_iff.2 hdistinct)
  refine ((pairwise_mergeSort_isLE key rs).and hne).imp_of_mem ?_
  intro a b ha hb h
  obtain ⟨x, hx⟩ := hkey a (List.mem_mergeSort.1 ha)
  obtain ⟨y, hy⟩ := hkey b (List.mem_mergeSort.1 hb)
  have hle : (compare (some x) (some y)).isLE = true := by rw [← hx, ← hy]; exact h.1
  have hxy : compare x y ≠ .eq := by
    intro heq
    exact h.2 (by rw [hx, hy, Std.LawfulEqCmp.eq_of_compare heq])
  refine ⟨x, y, hx, hy, ?_⟩
  change (compare x y).isLE = true at hle
  cases hcompare : compare x y with
  | lt => rfl
  | eq => exact absurd hcompare hxy
  | gt =>
    rw [hcompare] at hle
    cases hle

/-- Records of one question that are different have different keys. -/
theorem nodup_map_key {κ : Type} {key : Record → Option κ}
    (hinj : ∀ {a b}, key a = key b → key a ≠ none → a.data = b.data) {s : RecordSet}
    (hkey : ∀ r ∈ s, ∃ x, key r = some x) (hq : ∀ r ∈ s, r.question.key = q.key) :
    (s.toList.map key).Nodup := by
  refine s.nodup_toList.map_on ?_
  intro a ha b hb hab
  obtain ⟨x, hx⟩ := hkey a ha
  have hdata := hinj hab (by simp [hx])
  exact s.eq_of_identity_eq ha hb (Prod.ext ((hq a ha).trans (hq b hb).symm) hdata)

/-! ### Nameservers -/

/-- A nameserver record that is still good and belongs to a zone around the name of a question. -/
def Delegates (now : Instant) (c : Cache) (q : Question) (ns : Record) : Prop :=
  GoodNs now c q ns ∧ lowerLabels ns.name <:+ lowerLabels q.name

theorem Closest.delegates (h : Closest now c q ns) (hq : Name.IsClean q.name) :
    Delegates now c q ns :=
  ⟨h.toGoodNs, h.isSuffix hq⟩

/-- The record belongs to one of the zones that are searched. -/
theorem Delegates.exists_zone (h : Delegates now c q ns) (hq : Name.IsClean q.name)
    (hclean : Name.IsClean ns.name) :
    ∃ zone ∈ q.zones, lower ns.name = lower (Name.normalize zone) := by
  obtain ⟨zone, hzone, hlabels⟩ := hq.exists_zone_iff.2 h.2
  have hzoneClean := hq.of_mem_zones hzone
  refine ⟨zone, hzone, ?_⟩
  rw [hzoneClean.normalize_eq]
  exact hclean.lower_eq hzoneClean hlabels.symm

theorem WellFormed.bestNameservers_eq_nil_iff (hc : c.WellFormed)
    (hclean : ∀ r ∈ c.records, r.IsClean) (hq : Name.IsClean q.name) :
    (c.bestNameservers now q).1 = [] ↔ ¬∃ ns, Delegates now c q ns := by
  rw [← not_iff_not, not_not]
  constructor
  · intro h
    obtain ⟨ns, hns⟩ := List.exists_mem_of_ne_nil _ h
    exact ⟨ns, (hc.closest_of_mem_bestNameservers hns).delegates hq⟩
  · intro h
    obtain ⟨ns, hns⟩ := h
    obtain ⟨zone, hzone, hname⟩ := hns.exists_zone hq (hclean ns hns.1.held).owner
    exact firstDelegation_ne_nil_iff.2 ⟨zone, hzone, ns, hc.mem_live_ns_iff.2 ⟨hns.1, hname⟩⟩

/-- With one nameserver of a zone all of them are found. -/
theorem WellFormed.mem_bestNameservers_of_lower_eq (hc : c.WellFormed)
    (h : ns ∈ (c.bestNameservers now q).1) (hr : GoodNs now c q r)
    (hname : lower r.name = lower ns.name) : r ∈ (c.bestNameservers now q).1 := by
  rw [fst_bestNameservers] at h ⊢
  split at h
  · next zone hfind =>
    obtain ⟨-, hzone⟩ := hc.mem_live_ns_iff.1 (List.mem_mergeSort.1 h)
    exact List.mem_mergeSort.2 (hc.mem_live_ns_iff.2 ⟨hr, hname.trans hzone⟩)
  · cases h

/-- The nameservers of a clean name are those of the zone with the most labels. -/
theorem WellFormed.mem_bestNameservers_iff (hc : c.WellFormed)
    (hclean : ∀ r ∈ c.records, r.IsClean) (hq : Name.IsClean q.name) :
    ns ∈ (c.bestNameservers now q).1 ↔ Delegates now c q ns ∧
      ∀ r, Delegates now c q r → labelCount r.name ≤ labelCount ns.name := by
  constructor
  · intro h
    have hclosest := hc.closest_of_mem_bestNameservers h
    refine ⟨hclosest.delegates hq, ?_⟩
    exact fun r hr => hclosest.labelCount_le hq hr.1 (hclean r hr.1.held).owner hr.2
  · intro h
    obtain ⟨hns, hmost⟩ := h
    have hsome : (c.bestNameservers now q).1 ≠ [] :=
      fun hnil => (hc.bestNameservers_eq_nil_iff hclean hq).1 hnil ⟨ns, hns⟩
    obtain ⟨best, hbest⟩ := List.exists_mem_of_ne_nil _ hsome
    have hclosest := hc.closest_of_mem_bestNameservers hbest
    have hnsClean := (hclean ns hns.1.held).owner
    have hbestClean := (hclean best hclosest.held).owner
    -- ends of one list that are as long as each other
    have hlength : (lowerLabels ns.name).length = (lowerLabels best.name).length := by
      rw [Name.length_lowerLabels, Name.length_lowerLabels]
      exact Nat.le_antisymm (hclosest.labelCount_le hq hns.1 hnsClean hns.2)
        (hmost best (hclosest.delegates hq))
    have hlabels := (List.suffix_of_suffix_length_le hns.2 (hclosest.isSuffix hq)
      hlength.le).eq_of_length hlength
    exact hc.mem_bestNameservers_of_lower_eq hbest hns.1 (hnsClean.lower_eq hbestClean hlabels)

/-- Nameserver records have a name and address records an address of their family. -/
def Sound (c : Cache) : Prop :=
  ∀ r ∈ c.records, r.recordType = .ns ∨ r.recordType.isAddress = true → r.IsSound

theorem WellFormed.pairwise_bestNameservers (hc : c.WellFormed) (hsound : c.Sound) (now : Instant)
    (q : Question) :
    (c.bestNameservers now q).1.Pairwise (Record.Ascending Record.target?) := by
  rw [fst_bestNameservers]
  split
  · next zone hfind =>
    have htarget : ∀ r ∈ c.live now (.ofText zone .ns q.recordClass), ∃ x, r.target? = some x := by
      intro r hr
      obtain ⟨⟨hheld, hns, -⟩, -⟩ := hc.mem_live_ns_iff.1 hr
      refine (hsound r hheld (.inl hns)).exists_target ?_
      rw [hns]
      rfl
    exact pairwise_mergeSort_ascending htarget
      (nodup_map_key target?_inj htarget fun r hr => (hc.mem_live.1 hr).2.1)
  · exact .nil

/-! ### Addresses -/

/-- What a nameserver's address questions are the same as: every question for an address at the name
it points at. -/
theorem exists_addressQuestion_iff {useIpv6 : Bool} (hq : q.recordType ∈ addressTypes useIpv6) :
    (∃ p ∈ addressQuestions useIpv6 ns, p.key = q.key) ↔ ns.pointsAt q = true := by
  rw [Record.pointsAt_iff]
  simp only [mem_addressQuestions_iff]
  constructor
  · intro h
    obtain ⟨_, ⟨target, htarget, t, ht, rfl⟩, hkey⟩ := h
    simp only [Question.key, Question.ofText, Prod.mk.injEq] at hkey
    exact ⟨target, htarget, hkey.1, hkey.2.2⟩
  · intro h
    obtain ⟨target, htarget, hname, hclass⟩ := h
    refine ⟨_, ⟨target, htarget, q.recordType, hq, rfl⟩, ?_⟩
    simp only [Question.key, Question.ofText, hname, hclass]

theorem WellFormed.mem_knownAddresses_iff (hc : c.WellFormed) {nameservers : List Record}
    {useIpv6 : Bool} :
    r ∈ (c.knownAddresses now nameservers useIpv6).1 ↔
      r ∈ c.records ∧ r.isExpired now = false ∧
        (r.recordType = .a ∨ r.recordType = .aaaa ∧ useIpv6 = true) ∧
        ∃ ns ∈ nameservers, ns.pointsAt r.question = true := by
  rw [hc.mem_knownAddresses, ← mem_addressTypes_iff]
  constructor
  · intro h
    obtain ⟨ns, hns, q, hq, hr⟩ := h
    obtain ⟨hheld, hkey, hgood⟩ := hc.mem_live.1 hr
    obtain ⟨target, htarget, t, ht, rfl⟩ := mem_addressQuestions_iff.1 hq
    simp only [Question.key, Question.ofText, Prod.mk.injEq] at hkey
    obtain ⟨hname, htype, hclass⟩ := hkey
    refine ⟨hheld, hgood, ?_, ns, hns, Record.pointsAt_iff.2 ?_⟩
    · rwa [Record.recordType, htype]
    · exact ⟨target, htarget, hname.symm, hclass.symm⟩
  · intro h
    obtain ⟨hheld, hgood, htype, ns, hns, hpoints⟩ := h
    obtain ⟨q, hq, hkey⟩ := (exists_addressQuestion_iff htype).2 hpoints
    exact ⟨ns, hns, q, hq, hc.mem_live.2 ⟨hheld, hkey.symm, hgood⟩⟩

/-- The place of the first nameserver that points at the name of a question. -/
def firstPointing (nameservers : List Record) (q : Question) : Nat :=
  nameservers.findIdx (·.pointsAt q)

theorem firstPointing_congr {p q : Question} (h : p.key = q.key) (nameservers : List Record) :
    firstPointing nameservers p = firstPointing nameservers q := by
  simp only [firstPointing, Record.pointsAt_congr h]

theorem firstOfEach_append (ps qs : List Question) :
    firstOfEach (ps ++ qs) =
      firstOfEach ps ++ (firstOfEach qs).filter fun q => !ps.any (q.sameAs ·) := by
  induction ps with
  | nil => simp [firstOfEach]
  | cons p ps ih =>
    rw [List.cons_append, firstOfEach, ih, List.filter_append, List.filter_filter, firstOfEach,
      List.cons_append]
    simp only [List.any_cons, Bool.not_or]

theorem firstOfEach_sublist (qs : List Question) : (firstOfEach qs).Sublist qs := by
  induction qs with
  | nil => exact .slnil
  | cons q qs ih => exact (List.filter_sublist.trans ih).cons_cons q

/-- Of two address questions the one for version 4 comes first. -/
theorem pairwise_addressQuestions (useIpv6 : Bool) (ns : Record) :
    (addressQuestions useIpv6 ns).Pairwise fun p q =>
      p.recordType = .a ∧ q.recordType = .aaaa := by
  unfold addressQuestions addressTypes
  cases ns.target? <;> cases useIpv6 <;> simp [Question.ofText]

theorem recordType_of_mem_addressQuestions {useIpv6 : Bool} (h : q ∈ addressQuestions useIpv6 ns) :
    q.recordType ∈ addressTypes useIpv6 := by
  obtain ⟨target, -, t, ht, rfl⟩ := mem_addressQuestions_iff.1 h
  exact ht

/-- Address questions are read nameserver by nameserver, for version 4 before version 6. -/
theorem pairwise_firstOfEach (nameservers : List Record) (useIpv6 : Bool) :
    (firstOfEach (nameservers.flatMap (addressQuestions useIpv6))).Pairwise fun p q =>
      firstPointing nameservers p < firstPointing nameservers q ∨
        firstPointing nameservers p = firstPointing nameservers q ∧
          p.recordType = .a ∧ q.recordType = .aaaa := by
  induction nameservers with
  | nil => exact .nil
  | cons ns rest ih =>
    have hfirst : ∀ p ∈ firstOfEach (addressQuestions useIpv6 ns),
        firstPointing (ns :: rest) p = 0 := by
      intro p hp
      have hmem := mem_of_mem_firstOfEach hp
      have hpoints := (exists_addressQuestion_iff (recordType_of_mem_addressQuestions hmem)).1
        ⟨p, hmem, rfl⟩
      rw [firstPointing, List.findIdx_cons, hpoints, cond_true]
    -- what is left to the other nameservers is not pointed at by this one
    have hlater : ∀ q ∈ (firstOfEach (rest.flatMap (addressQuestions useIpv6))).filter
        fun q => !(addressQuestions useIpv6 ns).any (q.sameAs ·),
        firstPointing (ns :: rest) q = firstPointing rest q + 1 := by
      intro q hq
      rw [List.mem_filter] at hq
      obtain ⟨hmem, hother⟩ := hq
      obtain ⟨ns', -, hasked⟩ := List.mem_flatMap.1 (mem_of_mem_firstOfEach hmem)
      have hnot : ns.pointsAt q = false := by
        rw [← Bool.not_eq_true, ← exists_addressQuestion_iff
          (recordType_of_mem_addressQuestions hasked)]
        intro h
        obtain ⟨p, hp, hkey⟩ := h
        rw [Bool.not_eq_true', List.any_eq_false] at hother
        exact hother p hp (Question.sameAs_iff.2 hkey.symm)
      rw [firstPointing, List.findIdx_cons, hnot, cond_false, firstPointing]
    rw [List.flatMap_cons, firstOfEach_append, List.pairwise_append]
    refine ⟨?_, ?_, ?_⟩
    · refine ((pairwise_addressQuestions useIpv6 ns).sublist
        (firstOfEach_sublist _)).imp_of_mem ?_
      intro p q hp hq htypes
      exact .inr ⟨(hfirst p hp).trans (hfirst q hq).symm, htypes⟩
    · refine (ih.filter _).imp_of_mem ?_
      intro p q hp hq h
      rw [hlater p hp, hlater q hq]
      exact h.imp Nat.succ_lt_succ (And.imp_left (congrArg (· + 1)))
    · intro p hp q hq
      rw [hfirst p hp, hlater q hq]
      exact .inl (Nat.succ_pos _)

/-- The order of known addresses: by the nameservers that point at them, then version 4 before
version 6, then by address. -/
def Precedes (nameservers : List Record) (a b : Record) : Prop :=
  firstPointing nameservers a.question < firstPointing nameservers b.question ∨
    firstPointing nameservers a.question = firstPointing nameservers b.question ∧
      (a.recordType = .a ∧ b.recordType = .aaaa ∨
        a.recordType = b.recordType ∧ Record.Ascending Record.address? a b)

theorem WellFormed.pairwise_knownAddresses (hc : c.WellFormed) (hsound : c.Sound) (now : Instant)
    (nameservers : List Record) (useIpv6 : Bool) :
    (c.knownAddresses now nameservers useIpv6).1.toList.Pairwise (Precedes nameservers) := by
  have hkey : ∀ q, ∀ r ∈ c.shownAddresses now q, r.question.key = q.key :=
    fun q r hr => (hc.mem_live.1 (mem_shownAddresses.1 hr)).2.1
  rw [hc.toList_knownAddresses, List.pairwise_flatMap]
  constructor
  · intro q hq
    obtain ⟨ns, -, hasked⟩ := List.mem_flatMap.1 (mem_of_mem_firstOfEach hq)
    have haddress : ∀ r ∈ c.live now q, ∃ x, r.address? = some x := by
      intro r hr
      obtain ⟨hheld, hkey, -⟩ := hc.mem_live.1 hr
      have htype : r.recordType = q.recordType := congrArg (fun k => k.2.1) hkey
      have hq := mem_addressTypes_iff.1 (recordType_of_mem_addressQuestions hasked)
      have hisAddress : r.recordType.isAddress = true := by
        rw [htype]
        rcases hq with hq | ⟨hq, -⟩ <;> rw [hq] <;> rfl
      obtain ⟨ip, hip, -⟩ := (hsound r hheld (.inr hisAddress)).exists_address hisAddress
      exact ⟨ip, hip⟩
    have hsorted := pairwise_mergeSort_ascending haddress
      (nodup_map_key address?_inj haddress fun r hr => (hc.mem_live.1 hr).2.1)
    refine hsorted.imp_of_mem ?_
    intro a b ha hb h
    have hab := (hkey q a ha).trans (hkey q b hb).symm
    exact .inr ⟨firstPointing_congr hab nameservers,
      .inr ⟨congrArg (fun k => k.2.1) hab, h⟩⟩
  · refine (pairwise_firstOfEach nameservers useIpv6).imp ?_
    intro p q hpq a ha b hb
    have hp := hkey p a ha
    have hq := hkey q b hb
    rw [Precedes, firstPointing_congr hp, firstPointing_congr hq]
    refine hpq.imp_right (And.imp_right ?_)
    intro h
    obtain ⟨hpType, hqType⟩ := h
    exact .inl ⟨(congrArg (fun k => k.2.1) hp).trans hpType,
      (congrArg (fun k => k.2.1) hq).trans hqType⟩

/-! ### Main result -/

/-- For clean names, the nameservers of a question are exactly the good ones of the zone around its
name with the most labels, in ascending order of targets, and there are none only if no zone has
any. The known addresses of some nameservers are exactly the good address records whose owner one of
them points at, each once and in their order; and a nameserver with a clean target points at that
target. -/
theorem selection_is_exact (hc : c.WellFormed) (hsound : c.Sound)
    (hclean : ∀ r ∈ c.records, r.IsClean) (now : Instant) :
    (∀ q, Name.IsClean q.name →
      (∀ ns, ns ∈ (c.bestNameservers now q).1 ↔ Delegates now c q ns ∧
        ∀ r, Delegates now c q r → labelCount r.name ≤ labelCount ns.name) ∧
      (c.bestNameservers now q).1.Pairwise (Record.Ascending Record.target?) ∧
      ((c.bestNameservers now q).1 = [] ↔ ¬∃ ns, Delegates now c q ns)) ∧
    ∀ nameservers useIpv6,
      (∀ r, r ∈ (c.knownAddresses now nameservers useIpv6).1 ↔
        r ∈ c.records ∧ r.isExpired now = false ∧
          (r.recordType = .a ∨ r.recordType = .aaaa ∧ useIpv6 = true) ∧
          ∃ ns ∈ nameservers, ns.pointsAt r.question = true) ∧
      ((c.knownAddresses now nameservers useIpv6).1.toList.map Record.identity).Nodup ∧
      (c.knownAddresses now nameservers useIpv6).1.toList.Pairwise (Precedes nameservers) ∧
      ∀ ns ∈ nameservers, ∀ target, ns.target? = some target → Name.IsClean target →
        ∀ r : Record, ns.pointsAt r.question = true ↔
          lower r.name = lower target ∧ r.question.recordClass = ns.question.recordClass := by
  constructor
  · intro q hq
    exact ⟨fun ns => hc.mem_bestNameservers_iff hclean hq, hc.pairwise_bestNameservers hsound now q,
      hc.bestNameservers_eq_nil_iff hclean hq⟩
  · intro nameservers useIpv6
    refine ⟨fun r => hc.mem_knownAddresses_iff, RecordSet.distinct _,
      hc.pairwise_knownAddresses hsound now nameservers useIpv6, ?_⟩
    intro ns _ target htarget htargetClean r
    rw [Record.pointsAt_iff, htarget]
    simp only [Option.some.injEq, exists_eq_left', htargetClean.normalize_eq]
    exact and_congr eq_comm eq_comm

/-! ### A delegation and a glue record -/

namespace Glue

def delegation (zone target : String) : Record :=
  .permanent (.ofText zone .ns) (.name target)

def address : Record :=
  .permanent (.ofText "a.nic" .a) (.address (.ofQuad 192 5 6 30))

def cache : Cache :=
  addAll {} [delegation "" "a.root", delegation "com" "a.nic", address]

theorem wellFormed : cache.WellFormed :=
  wellFormed_empty.addAll _

theorem records_eq :
    cache.records = [delegation "" "a.root", delegation "com" "a.nic", address] := by
  decide

theorem sound : cache.Sound := by
  intro r hr _
  simp only [records_eq, List.mem_cons, List.not_mem_nil, or_false] at hr
  rcases hr with rfl | rfl | rfl <;> exact ⟨_, rfl⟩

theorem clean : ∀ r ∈ cache.records, r.IsClean := by
  decide

end Glue

/-- The nearer one of two zones is selected, and its glue. -/
theorem Glue.nearer_zone_selected :
    Glue.delegation "com" "a.nic" ∈
      (Glue.cache.bestNameservers 0 (.ofText "www.Com" .a)).1 ∧
    Glue.address ∈ (Glue.cache.knownAddresses 0 [Glue.delegation "com" "a.nic"] false).1 := by
  obtain ⟨hservers, haddresses⟩ := selection_is_exact Glue.wellFormed Glue.sound Glue.clean 0
  constructor
  · obtain ⟨hmem, -⟩ := hservers (.ofText "www.Com" .a) (by decide)
    rw [hmem]
    refine ⟨⟨⟨by decide, rfl, rfl, rfl⟩, by decide⟩, ?_⟩
    intro r hr
    have hheld := hr.1.held
    simp only [Glue.records_eq, List.mem_cons, List.not_mem_nil, or_false] at hheld
    rcases hheld with rfl | rfl | rfl
    · decide
    · decide
    · cases hr.1.isNs
  · obtain ⟨hmem, -⟩ := haddresses [Glue.delegation "com" "a.nic"] false
    rw [hmem]
    exact ⟨by decide, rfl, .inl rfl, _, List.mem_cons_self, by decide⟩

/-- A target with a blank in front of it is not the owner of the address that is found. -/
theorem Glue.untrimmed_target_selected :
    Glue.cache.WellFormed ∧ Glue.cache.Sound ∧ (∀ r ∈ Glue.cache.records, r.IsClean) ∧
    Glue.address ∈ (Glue.cache.knownAddresses 0 [Glue.delegation "com" " a.nic"] false).1 ∧
    ¬∃ ns ∈ [Glue.delegation "com" " a.nic"], ∃ target, ns.target? = some target ∧
      lower Glue.address.name = lower target := by
  refine ⟨Glue.wellFormed, Glue.sound, Glue.clean, ?_, ?_⟩
  · rw [Glue.wellFormed.mem_knownAddresses_iff]
    exact ⟨by decide, rfl, .inl rfl, _, List.mem_cons_self, by decide⟩
  · intro h
    obtain ⟨ns, hns, target, htarget, hname⟩ := h
    rw [List.mem_singleton.1 hns] at htarget
    cases htarget
    exact absurd hname (by decide)

end Cache

end IterativeDns
