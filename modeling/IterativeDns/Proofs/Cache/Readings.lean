import IterativeDns.Proofs.Cache.History
import Mathlib.Data.List.Sort

/-!
# What the readings of a cache depend on

The lists of nameservers and of their addresses are made from what the cache shows under single
questions, and this module says how.

* The nameservers of a question are those of the first zone that shows any, by target
  (`fst_bestNameservers`).
* The addresses of some nameservers are what the cache shows under their address questions, each
  question taken once and the records of each by address (`toList_knownAddresses`).

**Caches that show the same have the same readings** (`SameShown.sameReadings`). The order of a
list is fixed by targets or addresses; a record that has none has no place of its own among
others of its kind (`SameOrder`).
-/

namespace IterativeDns

/-! ### Sets of records as lists -/

namespace RecordSet

theorem eq_of_identity_eq {s : RecordSet} {a b : Record} (ha : a ∈ s) (hb : b ∈ s)
    (h : a.identity = b.identity) : a = b :=
  List.inj_on_of_nodup_map s.distinct ha hb h

theorem nodup_toList (s : RecordSet) : s.toList.Nodup :=
  s.distinct.of_map

theorem isEmpty_congr {s t : RecordSet} (h : ∀ r, r ∈ s ↔ r ∈ t) : s.isEmpty = t.isEmpty := by
  rw [Bool.eq_iff_iff, isEmpty_iff_not_exists, isEmpty_iff_not_exists]
  simp only [h]

/-- Sets with the same members list them in some order. -/
theorem perm_toList {s t : RecordSet} (h : ∀ r, r ∈ s ↔ r ∈ t) : s.toList.Perm t.toList :=
  (List.perm_ext_iff_of_nodup s.nodup_toList t.nodup_toList).2 h

/-- Records of different identities come behind those of the set, but for those it has. -/
theorem toList_insertAll {s : RecordSet} {rs : List Record}
    (h : (rs.map Record.identity).Nodup) :
    (s.insertAll rs).toList = s.toList ++ rs.filter fun r => !s.contains r := by
  induction rs generalizing s with
  | nil => simp
  | cons r rs ih =>
    rw [List.map_cons, List.nodup_cons] at h
    -- inserting `r` makes no difference to the records behind it
    have hrest : (rs.filter fun x => !(s.insert r).contains x) =
        rs.filter fun x => !s.contains x := by
      apply List.filter_congr
      intro x hx
      have hne : r.identity ≠ x.identity := fun hi => h.1 (hi ▸ List.mem_map_of_mem hx)
      congr 1
      rw [Bool.eq_iff_iff, contains_insert, or_iff_left hne]
    rw [insertAll_cons, ih h.2, hrest, toList_insert, List.filter_cons]
    cases s.contains r <;> simp

end RecordSet

/-! ### What copies of a record have in common -/

namespace Record

theorem target?_congr {a b : Record} (h : a.identity = b.identity) : a.target? = b.target? := by
  have hdata : a.data = b.data := congrArg Prod.snd h
  simp only [target?, hdata]

theorem address?_congr {a b : Record} (h : a.identity = b.identity) :
    a.address? = b.address? := by
  have hdata : a.data = b.data := congrArg Prod.snd h
  simp only [address?, hdata]

end Record

/-! ### The order of addresses -/

namespace Address

theorem compare_def (a b : Address) : Ord.compare a b = Address.compare a b := rfl

instance : Std.TransOrd Address where
  eq_swap := by
    intro a b
    cases a <;> cases b <;> simp only [compare_def, compare, Ordering.swap]
    · exact Std.OrientedCmp.eq_swap
    · exact Std.OrientedCmp.eq_swap
  isLE_trans := by
    intro a b c hab hbc
    cases a <;> cases b <;> cases c <;>
      simp only [compare_def, compare, Ordering.isLE_gt, Ordering.isLE_lt, Bool.false_eq_true]
        at hab hbc ⊢
    · exact Std.TransCmp.isLE_trans hab hbc
    · exact Std.TransCmp.isLE_trans hab hbc

instance : Std.LawfulEqOrd Address where
  eq_of_compare := by
    intro a b h
    cases a <;> cases b <;> simp only [compare_def, compare, reduceCtorEq] at h
    · exact congrArg Address.v4 (Vector.toList_inj.1 (Std.LawfulEqCmp.eq_of_compare h))
    · exact congrArg Address.v6 (Vector.toList_inj.1 (Std.LawfulEqCmp.eq_of_compare h))

end Address

namespace Cache

/-! ### Lists of the same order -/

/-- The lists hold the same records in the same places. Only records that have no key, and are
owned alike, may have changed places with each other. -/
def SameOrder {κ : Type} (key : Record → Option κ) (l l' : List Record) : Prop :=
  l.Perm l' ∧ List.Forall₂
    (fun a b => a = b ∨ key a = none ∧ key b = none ∧ a.question.key = b.question.key) l l'

section SameOrder

variable {κ : Type} {key : Record → Option κ}

/-- Where every record has a key the lists are equal. -/
theorem SameOrder.eq {l l' : List Record} (h : SameOrder key l l')
    (hkey : ∀ r ∈ l, key r ≠ none) : l = l' := by
  obtain ⟨-, h⟩ := h
  induction h with
  | nil => rfl
  | cons hab _ ih =>
    rw [List.forall_mem_cons] at hkey
    rcases hab with rfl | ⟨hno, -⟩
    · rw [ih hkey.2]
    · exact absurd hno hkey.1

theorem sameOrder_nil : SameOrder key [] [] :=
  ⟨.nil, .nil⟩

theorem SameOrder.append {l l' m m' : List Record} (h : SameOrder key l l')
    (h' : SameOrder key m m') : SameOrder key (l ++ m) (l' ++ m') :=
  ⟨h.1.append h'.1, List.rel_append h.2 h'.2⟩

theorem sameOrder_flatMap {α : Type} {f g : α → List Record} (h : ∀ a, SameOrder key (f a) (g a))
    (as : List α) : SameOrder key (as.flatMap f) (as.flatMap g) := by
  induction as with
  | nil => exact sameOrder_nil
  | cons a as ih => exact (h a).append ih

theorem forall₂_of_map_eq {R : Record → Record → Prop} {l l' : List Record}
    (h : l.map key = l'.map key) (hR : ∀ a ∈ l, ∀ b ∈ l', key a = key b → R a b) :
    List.Forall₂ R l l' := by
  induction l generalizing l' with
  | nil =>
    obtain rfl : l' = [] := List.map_eq_nil_iff.1 h.symm
    exact .nil
  | cons a l ih =>
    cases l' with
    | nil => cases h
    | cons b l' =>
      rw [List.map_cons, List.map_cons, List.cons.injEq] at h
      refine .cons (hR a List.mem_cons_self b List.mem_cons_self h.1) (ih h.2 ?_)
      exact fun x hx y hy => hR x (List.mem_cons_of_mem a hx) y (List.mem_cons_of_mem b hy)

/-- What is sorted by keys has its keys in ascending order. -/
theorem pairwise_mergeSort_isLE {α : Type} [Ord κ] [Std.TransOrd κ] (f : α → κ) (l : List α) :
    (l.mergeSort fun a b => (compare (f a) (f b)).isLE).Pairwise
      fun a b => (compare (f a) (f b)).isLE = true := by
  apply List.pairwise_mergeSort
  · exact fun a b c => Std.TransCmp.isLE_trans
  · intro a b
    have hswap : compare (f b) (f a) = (compare (f a) (f b)).swap := Std.OrientedCmp.eq_swap
    rw [hswap]
    cases compare (f a) (f b) <;> rfl

/-- What is sorted by keys has its keys in one order, whatever order it came in. -/
theorem map_mergeSort_of_perm [Ord κ] [Std.TransOrd κ] [Std.LawfulEqOrd κ] {l l' : List Record}
    (hperm : (l.map key).Perm (l'.map key)) :
    (l.mergeSort fun a b => (compare (key a) (key b)).isLE).map key =
      (l'.mergeSort fun a b => (compare (key a) (key b)).isLE).map key := by
  rw [List.map_mergeSort (s := fun a b => (compare a b).isLE) (fun _ _ _ _ => rfl),
    List.map_mergeSort (s := fun a b => (compare a b).isLE) (fun _ _ _ _ => rfl)]
  apply List.Perm.eq_of_pairwise _ (pairwise_mergeSort_isLE id _) (pairwise_mergeSort_isLE id _)
  · exact ((List.mergeSort_perm _ _).trans hperm).trans (List.mergeSort_perm _ _).symm
  · exact fun a b _ _ hab hba =>
      Std.LawfulEqCmp.eq_of_compare (Std.OrientedCmp.isLE_antisymm hab hba)

/-- Sorting by keys leaves open only the order of records without a key. -/
theorem sameOrder_mergeSort [Ord κ] [Std.TransOrd κ] [Std.LawfulEqOrd κ] {l l' : List Record}
    (hperm : l.Perm l') (howned : ∀ a ∈ l, ∀ b ∈ l, a.question.key = b.question.key)
    (hkey : ∀ a ∈ l, ∀ b ∈ l, key a = key b → key a ≠ none → a = b) :
    SameOrder key (l.mergeSort fun a b => (compare (key a) (key b)).isLE)
      (l'.mergeSort fun a b => (compare (key a) (key b)).isLE) := by
  refine ⟨((List.mergeSort_perm _ _).trans hperm).trans (List.mergeSort_perm _ _).symm, ?_⟩
  apply forall₂_of_map_eq (map_mergeSort_of_perm (hperm.map key))
  intro a ha b hb hab
  rw [List.mem_mergeSort] at ha hb
  rw [← hperm.mem_iff] at hb
  by_cases hnone : key a = none
  · exact .inr ⟨hnone, hab ▸ hnone, howned a ha b hb⟩
  · exact .inl (hkey a ha b hb hab hnone)

end SameOrder

/-! ### Nameservers -/

/-- The nameservers are those of the first zone that shows any. -/
theorem fst_firstDelegation (c : Cache) (now : Instant) (recordClass : RecordClass)
    (zones : List String) :
    (firstDelegation now recordClass zones c).1 =
      match zones.find? fun zone => !(c.live now (.ofText zone .ns recordClass)).isEmpty with
      | some zone => byTarget (c.live now (.ofText zone .ns recordClass)).toList
      | none => [] := by
  induction zones generalizing c with
  | nil => rfl
  | cons zone zones ih =>
    rw [firstDelegation_cons, List.find?_cons]
    cases h : (c.live now (.ofText zone .ns recordClass)).isEmpty with
    | true =>
      rw [if_pos rfl, ih]
      simp only [live_congr (entries_get c now _), Bool.not_true]
    | false => rfl

theorem fst_bestNameservers (c : Cache) (now : Instant) (q : Question) :
    (c.bestNameservers now q).1 =
      match q.zones.find? fun zone => !(c.live now (.ofText zone .ns q.recordClass)).isEmpty with
      | some zone => byTarget (c.live now (.ofText zone .ns q.recordClass)).toList
      | none => [] :=
  c.fst_firstDelegation now q.recordClass q.zones

/-- A nameserver of a question is shown by the first zone that shows any. -/
theorem exists_zone_of_mem_bestNameservers {c : Cache} {now : Instant} {q : Question}
    {ns : Record} (h : ns ∈ (c.bestNameservers now q).1) :
    ∃ nearer zone further, q.zones = nearer ++ zone :: further ∧
      (∀ z ∈ nearer, (c.live now (.ofText z .ns q.recordClass)).isEmpty = true) ∧
      ns ∈ c.live now (.ofText zone .ns q.recordClass) := by
  rw [fst_bestNameservers] at h
  split at h
  · next zone hfind =>
    obtain ⟨-, nearer, further, hzones, hnearer⟩ := List.find?_eq_some_iff_append.1 hfind
    refine ⟨nearer, zone, further, hzones, ?_, List.mem_mergeSort.1 h⟩
    intro z hz
    simpa using hnearer z hz
  · cases h

/-! ### Addresses -/

theorem mem_addressTypes_iff {useIpv6 : Bool} {t : RecordType} :
    t ∈ addressTypes useIpv6 ↔ t = .a ∨ t = .aaaa ∧ useIpv6 = true := by
  cases useIpv6 <;> simp [addressTypes]

theorem mem_addressQuestions_iff {useIpv6 : Bool} {ns : Record} {q : Question} :
    q ∈ addressQuestions useIpv6 ns ↔
      ∃ target, ns.target? = some target ∧ ∃ t ∈ addressTypes useIpv6,
        q = .ofText target t ns.question.recordClass := by
  unfold addressQuestions
  cases ns.target? with
  | none => simp
  | some target => simp [eq_comm]

/-- Parts that are empty may be left out. -/
theorem flatMap_eq_flatMap_filter {α β : Type} {p : α → Bool} {f g : α → List β} {l : List α}
    (hkeep : ∀ a ∈ l, p a = true → f a = g a) (hdrop : ∀ a ∈ l, p a = false → f a = []) :
    l.flatMap f = (l.filter p).flatMap g := by
  induction l with
  | nil => rfl
  | cons a l ih =>
    rw [List.forall_mem_cons] at hkeep hdrop
    rw [List.flatMap_cons, ih hkeep.2 hdrop.2, List.filter_cons]
    cases hp : p a with
    | true => rw [hkeep.1 hp, if_pos rfl, List.flatMap_cons]
    | false => rw [hdrop.1 hp, if_neg Bool.false_ne_true, List.nil_append]

/-- The first of each of the questions that are the same. -/
def firstOfEach : List Question → List Question
  | [] => []
  | q :: qs => q :: (firstOfEach qs).filter fun p => !p.sameAs q

theorem mem_of_mem_firstOfEach {q : Question} {qs : List Question} (h : q ∈ firstOfEach qs) :
    q ∈ qs := by
  induction qs with
  | nil => exact h
  | cons p qs ih =>
    rw [firstOfEach, List.mem_cons, List.mem_filter] at h
    rcases h with rfl | ⟨h, -⟩
    · exact List.mem_cons_self
    · exact List.mem_cons_of_mem p (ih h)

theorem exists_mem_firstOfEach {q : Question} {qs : List Question} (h : q ∈ qs) :
    ∃ p ∈ firstOfEach qs, p.key = q.key := by
  induction qs with
  | nil => cases h
  | cons p qs ih =>
    by_cases hsame : p.key = q.key
    · exact ⟨p, List.mem_cons_self, hsame⟩
    · rcases List.mem_cons.1 h with rfl | h
      · exact absurd rfl hsame
      · obtain ⟨p', hp', hkey⟩ := ih h
        refine ⟨p', List.mem_cons_of_mem p (List.mem_filter.2 ⟨hp', ?_⟩), hkey⟩
        rw [Bool.not_eq_true', ← Bool.not_eq_true, Question.sameAs_iff, hkey]
        exact Ne.symm hsame

/-- What the cache shows under a question, by address. -/
def shownAddresses (c : Cache) (now : Instant) (q : Question) : List Record :=
  byAddress (c.live now q).toList

theorem mem_shownAddresses {c : Cache} {now : Instant} {q : Question} {r : Record} :
    r ∈ c.shownAddresses now q ↔ r ∈ c.live now q :=
  List.mem_mergeSort

theorem nodup_shownAddresses (c : Cache) (now : Instant) (q : Question) :
    ((c.shownAddresses now q).map Record.identity).Nodup :=
  ((List.mergeSort_perm _ _).map _).nodup_iff.2 (c.live now q).distinct

theorem shownAddresses_congr {c d : Cache} (h : c.entries = d.entries) (now : Instant)
    (q : Question) : c.shownAddresses now q = d.shownAddresses now q := by
  simp only [shownAddresses, live_congr h]

/-- The addresses that are collected are new records of the questions, each question taken
once. -/
theorem WellFormed.toList_collectAddresses {c : Cache} (hc : c.WellFormed) (now : Instant)
    (qs : List Question) (found : RecordSet) :
    (collectAddresses now qs found c).1.toList = found.toList ++ (firstOfEach qs).flatMap fun q =>
      (c.shownAddresses now q).filter fun r => !found.contains r := by
  induction qs generalizing found c with
  | nil => simp [collectAddresses, firstOfEach]
  | cons q qs ih =>
    have hget : (c.get now q).2.entries = c.entries := entries_get c now q
    have hmore := RecordSet.toList_insertAll (s := found) (c.nodup_shownAddresses now q)
    have hstep : collectAddresses now (q :: qs) found c =
        collectAddresses now qs (found.insertAll (c.shownAddresses now q)) (c.get now q).2 := rfl
    rw [hstep, ih (hc.congr hget), hmore, List.append_assoc]
    congr 1
    rw [firstOfEach, List.flatMap_cons]
    congr 1
    apply flatMap_eq_flatMap_filter
    · -- other questions have other records
      intro p _ hother
      rw [shownAddresses_congr hget]
      apply List.filter_congr
      intro r hr
      congr 1
      rw [Bool.eq_iff_iff, RecordSet.contains_insertAll, or_iff_left]
      rintro ⟨x, hx, hi⟩
      have hxq := (hc.mem_live.1 (mem_shownAddresses.1 hx)).2.1
      have hrp := (hc.mem_live.1 (mem_shownAddresses.1 hr)).2.1
      rw [Bool.not_eq_true', ← Bool.not_eq_true, Question.sameAs_iff] at hother
      exact hother (by rw [← hrp, ← hxq, Record.key_eq_of_identity_eq hi])
    · -- what is shown under the same question has just been collected
      intro p _ hsame
      rw [Bool.not_eq_false', Question.sameAs_iff] at hsame
      rw [shownAddresses_congr hget, List.filter_eq_nil_iff]
      intro r hr
      have hrq : r ∈ c.live now q := by
        rw [mem_shownAddresses, hc.mem_live, hsame] at hr
        exact hc.mem_live.2 hr
      have hcollected : (found.insertAll (c.shownAddresses now q)).contains r = true :=
        RecordSet.contains_insertAll.2 (.inr ⟨r, mem_shownAddresses.2 hrq, rfl⟩)
      simp [hcollected]

/-- The known addresses of nameservers are what is shown under their address questions. -/
theorem WellFormed.toList_knownAddresses {c : Cache} (hc : c.WellFormed) (now : Instant)
    (nameservers : List Record) (useIpv6 : Bool) :
    (c.knownAddresses now nameservers useIpv6).1.toList =
      (firstOfEach (nameservers.flatMap (addressQuestions useIpv6))).flatMap
        (c.shownAddresses now) := by
  rw [knownAddresses, hc.toList_collectAddresses]
  have hnone : ∀ r, RecordSet.empty.contains r = false := fun _ => rfl
  simp [hnone]

/-- The records that are known addresses of nameservers. -/
theorem WellFormed.mem_knownAddresses {c : Cache} (hc : c.WellFormed) {now : Instant}
    {nameservers : List Record} {useIpv6 : Bool} {r : Record} :
    r ∈ (c.knownAddresses now nameservers useIpv6).1 ↔
      ∃ ns ∈ nameservers, ∃ q ∈ addressQuestions useIpv6 ns, r ∈ c.live now q := by
  rw [← RecordSet.mem_toList, hc.toList_knownAddresses, List.mem_flatMap]
  constructor
  · rintro ⟨q, hq, hr⟩
    obtain ⟨ns, hns, hqns⟩ := List.mem_flatMap.1 (mem_of_mem_firstOfEach hq)
    exact ⟨ns, hns, q, hqns, mem_shownAddresses.1 hr⟩
  · rintro ⟨ns, hns, q, hq, hr⟩
    obtain ⟨p, hp, hkey⟩ := exists_mem_firstOfEach (List.mem_flatMap.2 ⟨ns, hns, hq⟩)
    rw [hc.mem_live, ← hkey] at hr
    exact ⟨p, hp, mem_shownAddresses.2 (hc.mem_live.2 hr)⟩

theorem fst_collectAddresses_congr {c d : Cache} (h : c.entries = d.entries) {now : Instant}
    {qs : List Question} {found : RecordSet} :
    (collectAddresses now qs found c).1 = (collectAddresses now qs found d).1 := by
  induction qs generalizing found c d with
  | nil => rfl
  | cons q qs ih =>
    simp only [collectAddresses, fst_get, live_congr h]
    exact ih (by rw [entries_get, entries_get, h])

theorem fst_knownAddresses_congr {c d : Cache} (h : c.entries = d.entries) {now : Instant}
    {nameservers : List Record} {useIpv6 : Bool} :
    (c.knownAddresses now nameservers useIpv6).1 = (d.knownAddresses now nameservers useIpv6).1 :=
  fst_collectAddresses_congr h

/-! ### Caches that show the same -/

/-- Two caches show the same records under every question. -/
def SameShown (now : Instant) (c d : Cache) : Prop :=
  ∀ q r, r ∈ c.live now q ↔ r ∈ d.live now q

/-- Two caches cannot be told apart by reading them. -/
structure SameReadings (now : Instant) (c d : Cache) : Prop where
  get : ∀ q r, r ∈ (c.get now q).1 ↔ r ∈ (d.get now q).1
  bestNameservers : ∀ q,
    SameOrder Record.target? (c.bestNameservers now q).1 (d.bestNameservers now q).1
  knownAddresses : ∀ nameservers useIpv6,
    SameOrder Record.address? (c.knownAddresses now nameservers useIpv6).1.toList
      (d.knownAddresses now nameservers useIpv6).1.toList

theorem target?_inj {a b : Record} (h : a.target? = b.target?) (hsome : a.target? ≠ none) :
    a.data = b.data := by
  unfold Record.target? at h hsome
  split at h <;> split at h <;> simp_all

theorem address?_inj {a b : Record} (h : a.address? = b.address?) (hsome : a.address? ≠ none) :
    a.data = b.data := by
  unfold Record.address? at h hsome
  split at h <;> split at h <;> simp_all

section SameShown

variable {now : Instant} {c d : Cache}

/-- What is shown under a question has the same order in both, however it is sorted. -/
theorem SameShown.sameOrder {κ : Type} [Ord κ] [Std.TransOrd κ] [Std.LawfulEqOrd κ]
    {key : Record → Option κ}
    (hkey : ∀ {a b : Record}, key a = key b → key a ≠ none → a.data = b.data)
    (h : SameShown now c d) (hc : c.WellFormed) (q : Question) :
    SameOrder key ((c.live now q).toList.mergeSort fun a b => (compare (key a) (key b)).isLE)
      ((d.live now q).toList.mergeSort fun a b => (compare (key a) (key b)).isLE) := by
  have howned : ∀ a ∈ (c.live now q).toList, ∀ b ∈ (c.live now q).toList,
      a.question.key = b.question.key := by
    intro a ha b hb
    exact (hc.mem_live.1 ha).2.1.trans (hc.mem_live.1 hb).2.1.symm
  apply sameOrder_mergeSort (RecordSet.perm_toList (h q)) howned
  intro a ha b hb hab hsome
  exact RecordSet.eq_of_identity_eq ha hb (Prod.ext (howned a ha b hb) (hkey hab hsome))

theorem SameShown.sameReadings (h : SameShown now c d) (hc : c.WellFormed) (hd : d.WellFormed) :
    SameReadings now c d where
  get := h
  bestNameservers := by
    intro q
    have hempty : ∀ p, (c.live now p).isEmpty = (d.live now p).isEmpty :=
      fun p => RecordSet.isEmpty_congr (h p)
    rw [fst_bestNameservers, fst_bestNameservers]
    simp only [hempty]
    split
    · exact h.sameOrder target?_inj hc _
    · exact sameOrder_nil
  knownAddresses := by
    intro nameservers useIpv6
    rw [hc.toList_knownAddresses, hd.toList_knownAddresses]
    exact sameOrder_flatMap (fun q => h.sameOrder address?_inj hc q) _

end SameShown

end Cache

end IterativeDns
