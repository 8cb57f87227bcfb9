import IterativeDns.Proofs.Cache.Log
import IterativeDns.Proofs.Name.LetterCase

/-!
# Caches that look alike

Two caches may be compared more or less exactly. A `View` says what of a record and of a question
counts: everything (`View.exact`), or everything but the letter case of owner names and the TTL a
record came with (`View.caseless`). It always tells apart what a cache tells apart, namely records
of different identity and questions of different key, and how long a record is good.

Caches that look alike in a view (`Cache.Resembles`) have readings that are alike: for questions
of one key they show the same records in some copies, the nameservers they offer point at the same
names in the same order, and the addresses they know come in the same order (`Aligned`). They go on
to look alike when both learn records whose last copies look alike (`Resembles.addAll`). A record
without a target or an address has no place of its own in such a list; nobody can be asked by it.
-/

namespace IterativeDns

/-! ### Views -/

/-- What of records and questions counts. -/
structure View where
  RecordView : Type
  QuestionView : Type
  record : Record → RecordView
  question : Question → QuestionView
  identity_eq : ∀ {a b : Record}, record a = record b → a.identity = b.identity
  expires_eq : ∀ {a b : Record}, record a = record b → a.expires = b.expires
  key_eq : ∀ {p q : Question}, question p = question q → p.key = q.key

namespace View

def exact : View where
  RecordView := Record
  QuestionView := Question
  record := id
  question := id
  identity_eq h := congrArg Record.identity h
  expires_eq h := congrArg Record.expires h
  key_eq h := congrArg Question.key h

instance : DecidableEq exact.QuestionView :=
  inferInstanceAs (DecidableEq Question)

/-- The letter case of owner names and questions does not count. -/
def caseless : View where
  RecordView := ((List Char × RecordType × RecordClass) × Rdata) × Option Instant
  QuestionView := List Char × RecordType × RecordClass
  record r := (r.identity, r.expires)
  question := Question.key
  identity_eq h := congrArg Prod.fst h
  expires_eq h := congrArg Prod.snd h
  key_eq h := h

instance : DecidableEq caseless.QuestionView :=
  inferInstanceAs (DecidableEq (List Char × RecordType × RecordClass))

theorem isExpired_eq (V : View) {a b : Record} (h : V.record a = V.record b) (now : Instant) :
    a.isExpired now = b.isExpired now := by
  simp only [Record.isExpired, V.expires_eq h]

/-- The last copies of each record look alike in both lists. -/
def SameLast (V : View) (rs rs' : List Record) : Prop :=
  ∀ r, (Cache.latest? rs r).map V.record = (Cache.latest? rs' r).map V.record

section SameLast

variable {V : View} {rs rs' : List Record}

/-- Lists that look alike record by record have last copies that look alike. -/
theorem sameLast_of_forall₂ (h : List.Forall₂ (fun a b => V.record a = V.record b) rs rs') :
    V.SameLast rs rs' := by
  intro r
  unfold Cache.latest?
  have hreverse := List.forall₂_reverse_iff.2 h
  generalize rs.reverse = l, rs'.reverse = l' at hreverse
  clear h
  induction hreverse with
  | nil => rfl
  | @cons a b _ _ hab _ ih =>
    have hsame : a.sameAs r = b.sameAs r := by
      rw [Record.sameAs, Record.sameAs, V.identity_eq hab]
    rw [List.find?_cons, List.find?_cons, ← hsame]
    cases a.sameAs r with
    | true => exact congrArg some hab
    | false => exact ih

/-- Where no record comes twice the order does not matter. -/
theorem sameLast_of_perm (h : rs.Perm rs') (hdistinct : (rs.map Record.identity).Nodup) :
    V.SameLast rs rs' := by
  intro r
  rw [Cache.latest?_perm h hdistinct]

theorem SameLast.symm (h : V.SameLast rs rs') : V.SameLast rs' rs :=
  fun r => (h r).symm

theorem SameLast.latest?_eq_none_iff (h : V.SameLast rs rs') {a b : Record}
    (hab : a.identity = b.identity) : Cache.latest? rs a = none ↔ Cache.latest? rs' b = none := by
  rw [Cache.latest?_congr rs hab, ← Option.map_eq_none_iff (f := V.record), h,
    Option.map_eq_none_iff]

theorem SameLast.exists_latest? (h : V.SameLast rs rs') {r : Record}
    (hr : Cache.latest? rs r = some r) :
    ∃ x, Cache.latest? rs' x = some x ∧ V.record r = V.record x := by
  have hmap := h r
  rw [hr, Option.map_some, eq_comm, Option.map_eq_some_iff] at hmap
  obtain ⟨x, hx, hview⟩ := hmap
  exact ⟨x, (Cache.latest?_congr rs' (Cache.identity_of_latest? hx)).trans hx, hview.symm⟩

/-- Both lists hold the same records in some copies. -/
theorem SameLast.exists_identity_iff (h : V.SameLast rs rs') (r : Record) :
    (∃ x ∈ rs, x.identity = r.identity) ↔ ∃ x ∈ rs', x.identity = r.identity := by
  have hnone : ∀ log : List Record, (∃ x ∈ log, x.identity = r.identity) ↔
      Cache.latest? log r ≠ none := by
    intro log
    constructor
    · rintro ⟨x, hx, hi⟩
      obtain ⟨y, hy⟩ := Cache.exists_latest? hx
      rw [← Cache.latest?_congr log hi, hy]
      exact Option.some_ne_none y
    · intro hsome
      obtain ⟨x, hx⟩ := Option.ne_none_iff_exists'.1 hsome
      exact ⟨x, Cache.mem_of_latest? hx, Cache.identity_of_latest? hx⟩
  rw [hnone, hnone, Ne, Ne, h.latest?_eq_none_iff rfl]

end SameLast

end View

/-! ### Sets of records -/

namespace RecordSet

/-- The sets hold the same records in some copies. -/
def Alike (s t : RecordSet) : Prop :=
  ∀ r, s.contains r = t.contains r

section Alike

variable {s t u v : RecordSet}

theorem Alike.symm (h : s.Alike t) : t.Alike s :=
  fun r => (h r).symm

theorem Alike.trans (h : s.Alike t) (h' : t.Alike u) : s.Alike u :=
  fun r => (h r).trans (h' r)

theorem Alike.union (h : s.Alike t) (h' : u.Alike v) : (s.union u).Alike (t.union v) := by
  intro r
  rw [Bool.eq_iff_iff, contains_union, contains_union, h, h']

theorem Alike.insertAll {rs rs' : List Record} (h : s.Alike t)
    (hrs : ∀ r : Record, (∃ x ∈ rs, x.identity = r.identity) ↔ ∃ x ∈ rs', x.identity = r.identity) :
    (s.insertAll rs).Alike (t.insertAll rs') := by
  intro r
  rw [Bool.eq_iff_iff, contains_insertAll, contains_insertAll, h, hrs]

/-- What is in one set is in the other in some copy. -/
theorem Alike.exists_mem (h : s.Alike t) {r : Record} (hr : r ∈ s) :
    ∃ x ∈ t, x.identity = r.identity :=
  contains_iff_exists.1 ((h r).symm.trans (contains_of_mem hr))

theorem Alike.isEmpty_eq (h : s.Alike t) : s.isEmpty = t.isEmpty := by
  have hsome : ∀ {s t : RecordSet}, s.Alike t → s.isEmpty = false → t.isEmpty = false := by
    intro s t h hs
    obtain ⟨r, hr⟩ := isEmpty_eq_false_iff.1 hs
    obtain ⟨x, hx, -⟩ := h.exists_mem hr
    exact isEmpty_eq_false_iff.2 ⟨x, hx⟩
  cases ht : t.isEmpty with
  | false => exact hsome h.symm ht
  | true =>
    rw [← Bool.not_eq_false]
    intro hs
    rw [hsome h hs] at ht
    cases ht

/-- The identities of sets that are alike are listed in some order. -/
theorem Alike.perm (h : s.Alike t) :
    (s.toList.map Record.identity).Perm (t.toList.map Record.identity) := by
  rw [List.perm_ext_iff_of_nodup s.distinct t.distinct]
  intro i
  constructor
  · intro hi
    obtain ⟨r, hr, rfl⟩ := List.mem_map.1 hi
    exact contains_iff.1 ((h r).symm.trans (contains_of_mem hr))
  · intro hi
    obtain ⟨r, hr, rfl⟩ := List.mem_map.1 hi
    exact contains_iff.1 ((h r).trans (contains_of_mem hr))

theorem alike_of_perm (h : (s.toList.map Record.identity).Perm (t.toList.map Record.identity)) :
    s.Alike t := by
  intro r
  rw [Bool.eq_iff_iff, contains_iff, contains_iff, h.mem_iff]

end Alike

end RecordSet

namespace Cache

/-! ### Sorted lists -/

/-- Record by record the lists hold copies of the same records, but for records without a key. -/
def InStep {κ : Type} (key : Record → Option κ) (l l' : List Record) : Prop :=
  List.Forall₂ (fun a b => a.identity = b.identity ∨ key a = none ∧ key b = none) l l'

/-- The lists hold the same records in some copies, and in the same places but for records without
a key. -/
def Aligned {κ : Type} (key : Record → Option κ) (l l' : List Record) : Prop :=
  (l.map Record.identity).Perm (l'.map Record.identity) ∧ InStep key l l'

section Aligned

variable {κ : Type} {key : Record → Option κ}

theorem aligned_nil : Aligned key [] [] :=
  ⟨.nil, .nil⟩

theorem Aligned.append {l l' m m' : List Record} (h : Aligned key l l') (h' : Aligned key m m') :
    Aligned key (l ++ m) (l' ++ m') := by
  refine ⟨?_, List.rel_append h.2 h'.2⟩
  rw [List.map_append, List.map_append]
  exact h.1.append h'.1

theorem aligned_flatMap {α : Type} {f g : α → List Record} (h : ∀ a, Aligned key (f a) (g a))
    (as : List α) : Aligned key (as.flatMap f) (as.flatMap g) := by
  induction as with
  | nil => exact aligned_nil
  | cons a as ih => exact (h a).append ih

/-- Sorting by keys leaves open only the order of records without a key. -/
theorem aligned_mergeSort [Ord κ] [Std.TransOrd κ] [Std.LawfulEqOrd κ]
    (hcongr : key.FactorsThrough Record.identity) {l l' : List Record}
    (hperm : (l.map Record.identity).Perm (l'.map Record.identity))
    (hkey : ∀ a ∈ l, ∀ b ∈ l', key a = key b → key a ≠ none → a.identity = b.identity) :
    Aligned key (l.mergeSort fun a b => (compare (key a) (key b)).isLE)
      (l'.mergeSort fun a b => (compare (key a) (key b)).isLE) := by
  have hkeys : (l.map key).Perm (l'.map key) := by
    obtain ⟨ofIdentity, rfl⟩ := (Function.factorsThrough_iff key).1 hcongr
    rw [← List.map_map, ← List.map_map]
    exact hperm.map ofIdentity
  refine ⟨(((List.mergeSort_perm _ _).map _).trans hperm).trans
    ((List.mergeSort_perm _ _).map _).symm, ?_⟩
  apply forall₂_of_map_eq (map_mergeSort_of_perm hkeys)
  intro a ha b hb hab
  rw [List.mem_mergeSort] at ha hb
  by_cases hnone : key a = none
  · exact .inr ⟨hnone, hab ▸ hnone⟩
  · exact .inl (hkey a ha b hb hab hnone)

/-- Only nameservers that point at a name have questions for their address. -/
theorem InStep.flatMap_addressQuestions {l l' : List Record} (h : InStep Record.target? l l')
    (useIpv6 : Bool) :
    l.flatMap (addressQuestions useIpv6) = l'.flatMap (addressQuestions useIpv6) := by
  induction h with
  | nil => rfl
  | @cons a b _ _ hab _ ih =>
    rw [List.flatMap_cons, List.flatMap_cons, ih]
    congr 1
    rcases hab with hi | ⟨ha, hb⟩
    · rw [addressQuestions, addressQuestions, Record.target?_congr hi,
        Question.recordClass_eq_of_key_eq (Record.key_eq_of_identity_eq hi)]
    · rw [addressQuestions, addressQuestions, ha, hb]

end Aligned

/-! ### Caches -/

/-- Two well-formed caches hold records that look alike. -/
structure Resembles (V : View) (c d : Cache) : Prop where
  left : c.WellFormed
  right : d.WellFormed
  forth : ∀ r ∈ c.records, ∃ x ∈ d.records, V.record r = V.record x
  back : ∀ x ∈ d.records, ∃ r ∈ c.records, V.record r = V.record x

section Resembles

variable {V : View} {c d : Cache}

theorem Resembles.symm (h : c.Resembles V d) : d.Resembles V c where
  left := h.right
  right := h.left
  forth x hx := (h.back x hx).imp fun _ h => ⟨h.1, h.2.symm⟩
  back r hr := (h.forth r hr).imp fun _ h => ⟨h.1, h.2.symm⟩

theorem Resembles.congr {c' d' : Cache} (h : c.Resembles V d) (hc : c'.entries = c.entries)
    (hd : d'.entries = d.entries) : c'.Resembles V d' where
  left := h.left.congr hc
  right := h.right.congr hd
  forth := by
    rw [records_congr hc, records_congr hd]
    exact h.forth
  back := by
    rw [records_congr hc, records_congr hd]
    exact h.back

/-- Learning keeps caches alike. -/
theorem Resembles.addAll (h : c.Resembles V d) {rs rs' : List Record} (hrs : V.SameLast rs rs') :
    (c.addAll rs).Resembles V (d.addAll rs') := by
  have hforth : ∀ {c d : Cache}, c.Resembles V d → ∀ {rs rs' : List Record}, V.SameLast rs rs' →
      ∀ r ∈ (c.addAll rs).records, ∃ x ∈ (d.addAll rs').records, V.record r = V.record x := by
    intro c d h rs rs' hrs r hr
    rcases h.left.mem_records_addAll.1 hr with hlast | ⟨hnone, hr⟩
    · obtain ⟨x, hx, hview⟩ := hrs.exists_latest? hlast
      exact ⟨x, h.right.mem_records_addAll.2 (.inl hx), hview⟩
    · obtain ⟨x, hx, hview⟩ := h.forth r hr
      have hnone' := (hrs.latest?_eq_none_iff (V.identity_eq hview)).1 hnone
      exact ⟨x, h.right.mem_records_addAll.2 (.inr ⟨hnone', hx⟩), hview⟩
  refine ⟨h.left.addAll rs, h.right.addAll rs', hforth h hrs, ?_⟩
  intro x hx
  exact (hforth h.symm hrs.symm x hx).imp fun _ h => ⟨h.1, h.2.symm⟩

section Readings

variable {now : Instant} {p q : Question}

/-- Under questions of one key the same is shown in some copies. -/
theorem Resembles.live (h : c.Resembles V d) (hkey : p.key = q.key) :
    (c.live now p).Alike (d.live now q) := by
  have hshown : ∀ {c d : Cache} {p q : Question}, c.Resembles V d → p.key = q.key → ∀ r,
      (c.live now p).contains r = true → (d.live now q).contains r = true := by
    intro c d p q h hkey r hr
    obtain ⟨x, hx, hi⟩ := RecordSet.contains_iff_exists.1 hr
    obtain ⟨hheld, hxp, hgood⟩ := h.left.mem_live.1 hx
    obtain ⟨y, hy, hview⟩ := h.forth x hheld
    have hyx := V.identity_eq hview
    refine RecordSet.contains_iff_exists.2 ⟨y, h.right.mem_live.2 ⟨hy, ?_, ?_⟩, hyx.symm.trans hi⟩
    · rw [← Record.key_eq_of_identity_eq hyx, hxp, hkey]
    · rw [← V.isExpired_eq hview, hgood]
  intro r
  rw [Bool.eq_iff_iff]
  exact ⟨hshown h hkey r, hshown h.symm hkey.symm r⟩

/-- What is shown under a question has one order, however it is sorted. -/
theorem Resembles.aligned_live (h : c.Resembles V d) (hkey : p.key = q.key) {κ : Type} [Ord κ]
    [Std.TransOrd κ] [Std.LawfulEqOrd κ] {key : Record → Option κ}
    (hcongr : key.FactorsThrough Record.identity)
    (hdata : ∀ {a b : Record}, key a = key b → key a ≠ none → a.data = b.data) :
    Aligned key ((c.live now p).toList.mergeSort fun a b => (compare (key a) (key b)).isLE)
      ((d.live now q).toList.mergeSort fun a b => (compare (key a) (key b)).isLE) := by
  apply aligned_mergeSort hcongr (h.live hkey).perm
  intro a ha b hb hab hsome
  have howned : a.question.key = b.question.key := by
    rw [(h.left.mem_live.1 ha).2.1, (h.right.mem_live.1 hb).2.1, hkey]
  exact Prod.ext howned (hdata hab hsome)

theorem Resembles.firstDelegation (h : c.Resembles V d) {zones zones' : List String}
    (hzones : List.Forall₂ (fun z z' => Text.lower z = Text.lower z') zones zones')
    (recordClass : RecordClass) :
    Aligned Record.target? (firstDelegation now recordClass zones c).1
      (firstDelegation now recordClass zones' d).1 := by
  induction hzones generalizing c d with
  | nil => exact aligned_nil
  | @cons z z' _ _ hz _ ih =>
    have hkey := Question.key_ofText_congr hz .ns recordClass
    rw [firstDelegation_cons, firstDelegation_cons, (h.live hkey).isEmpty_eq]
    split
    · exact ih (h.congr (entries_get c now _) (entries_get d now _))
    · exact h.aligned_live hkey (fun _ _ => Record.target?_congr) target?_inj

theorem Resembles.bestNameservers (h : c.Resembles V d) (hkey : p.key = q.key) :
    Aligned Record.target? (c.bestNameservers now p).1 (d.bestNameservers now q).1 := by
  rw [Cache.bestNameservers, Cache.bestNameservers, Question.recordClass_eq_of_key_eq hkey]
  exact h.firstDelegation (Name.forall₂_zones (Question.lower_eq_of_key_eq hkey)) _

theorem Resembles.knownAddresses (h : c.Resembles V d) {nameservers nameservers' : List Record}
    (hns : InStep Record.target? nameservers nameservers') (useIpv6 : Bool) :
    Aligned Record.address? (c.knownAddresses now nameservers useIpv6).1.toList
      (d.knownAddresses now nameservers' useIpv6).1.toList := by
  rw [h.left.toList_knownAddresses, h.right.toList_knownAddresses,
    hns.flatMap_addressQuestions useIpv6]
  exact aligned_flatMap
    (fun q => h.aligned_live rfl (fun _ _ => Record.address?_congr) address?_inj) _

end Readings

end Resembles

end Cache

end IterativeDns
