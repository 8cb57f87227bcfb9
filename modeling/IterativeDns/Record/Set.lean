import IterativeDns.Record

/-!
# Sets of records

A set holds each record once, where records are compared by identity: it is a list in order of
arrival whose identities are pairwise different, and the type carries that fact. Two ways to
add a record differ in which copy stays: `insert` keeps the one already there, `replace` the
one that comes.

The view of a set is `toList`; one lemma per operation says what it does to the identities.
-/

namespace IterativeDns

/-- Records in order of arrival, no two with one identity. -/
structure RecordSet where
  toList : List Record
  distinct : (toList.map Record.identity).Nodup
deriving DecidableEq

namespace RecordSet

def empty : RecordSet := ⟨[], by simp⟩

instance : Inhabited RecordSet := ⟨empty⟩

instance : Membership Record RecordSet := ⟨fun s r => r ∈ s.toList⟩

@[simp] theorem mem_toList {r : Record} {s : RecordSet} : r ∈ s.toList ↔ r ∈ s := Iff.rfl

@[ext] theorem ext {s t : RecordSet} (h : s.toList = t.toList) : s = t := by
  cases s; cases t; cases h; rfl

def size (s : RecordSet) : Nat := s.toList.length

def isEmpty (s : RecordSet) : Bool := s.toList.isEmpty

/-- A record with this identity is in the set. -/
def contains (s : RecordSet) (r : Record) : Bool :=
  s.toList.any (·.sameAs r)

def filter (s : RecordSet) (p : Record → Bool) : RecordSet :=
  ⟨s.toList.filter p, (s.toList.filter_sublist.map _).nodup s.distinct⟩

theorem contains_iff {s : RecordSet} {r : Record} :
    s.contains r = true ↔ r.identity ∈ s.toList.map Record.identity := by
  simp [contains, Record.sameAs_iff]

theorem distinct_append {s : RecordSet} {r : Record} (h : s.contains r = false) :
    ((s.toList ++ [r]).map Record.identity).Nodup := by
  have hr : r.identity ∉ s.toList.map Record.identity := by
    rw [← contains_iff, h]; simp
  rw [List.map_append, List.nodup_append]
  refine ⟨s.distinct, by simp, ?_⟩
  intro a ha b hb
  simp only [List.map_cons, List.map_nil, List.mem_singleton] at hb
  rintro rfl
  exact hr (hb ▸ ha)

/-- Adds a record unless one with its identity is there. -/
def insert (s : RecordSet) (r : Record) : RecordSet :=
  if h : s.contains r = true then s
  else ⟨s.toList ++ [r], distinct_append (by simpa using h)⟩

/-- The list with a record in the place of the one with its identity. -/
def substitute (r : Record) (rs : List Record) : List Record :=
  rs.map fun old => if old.sameAs r then r else old

theorem map_identity_substitute (r : Record) (rs : List Record) :
    (substitute r rs).map Record.identity = rs.map Record.identity := by
  simp only [substitute, List.map_map, List.map_inj_left, Function.comp]
  intro old _
  by_cases h : old.sameAs r = true
  · simp [h, Record.sameAs_iff.1 h]
  · simp [h]

/-- Adds a record in place of the one with its identity, if there is one. -/
def replace (s : RecordSet) (r : Record) : RecordSet :=
  if h : s.contains r = true then
    ⟨substitute r s.toList, by rw [map_identity_substitute]; exact s.distinct⟩
  else ⟨s.toList ++ [r], distinct_append (by simpa using h)⟩

/-- Adds the records of a list, front to back, each unless one with its identity is there. -/
def insertAll (s : RecordSet) (rs : List Record) : RecordSet :=
  rs.foldl insert s

/-- The records of both sets; of two with one identity the left one stays. -/
def union (s t : RecordSet) : RecordSet :=
  s.insertAll t.toList

/-- The first record of each identity. -/
def ofList (rs : List Record) : RecordSet :=
  empty.insertAll rs

/-! ### What the operations do to the view -/

@[simp] theorem toList_empty : empty.toList = [] := rfl

@[simp] theorem toList_filter (s : RecordSet) (p : Record → Bool) :
    (s.filter p).toList = s.toList.filter p := rfl

theorem toList_insert (s : RecordSet) (r : Record) :
    (s.insert r).toList = if s.contains r then s.toList else s.toList ++ [r] := by
  unfold insert
  split <;> simp_all

theorem toList_replace (s : RecordSet) (r : Record) :
    (s.replace r).toList = if s.contains r then substitute r s.toList else s.toList ++ [r] := by
  unfold replace
  split <;> simp_all

@[simp] theorem insertAll_nil (s : RecordSet) : s.insertAll [] = s := rfl

@[simp] theorem insertAll_cons (s : RecordSet) (r : Record) (rs : List Record) :
    s.insertAll (r :: rs) = (s.insert r).insertAll rs := rfl

/-! ### What the operations do to membership -/

@[simp] theorem mem_filter {s : RecordSet} {p : Record → Bool} {r : Record} :
    r ∈ s.filter p ↔ r ∈ s ∧ p r = true := by
  simp [← mem_toList]

theorem contains_iff_exists {s : RecordSet} {r : Record} :
    s.contains r = true ↔ ∃ x ∈ s, x.identity = r.identity := by
  simp [contains_iff]

theorem isEmpty_eq_false_iff {s : RecordSet} : s.isEmpty = false ↔ ∃ r, r ∈ s := by
  rw [isEmpty, List.isEmpty_eq_false_iff_exists_mem]
  rfl

theorem isEmpty_iff_not_exists {s : RecordSet} : s.isEmpty = true ↔ ¬∃ r, r ∈ s := by
  rw [← isEmpty_eq_false_iff, Bool.not_eq_false]

theorem mem_insert {s : RecordSet} {r x : Record} :
    x ∈ s.insert r ↔ x ∈ s ∨ x = r ∧ s.contains r = false := by
  rw [← mem_toList, toList_insert]
  cases h : s.contains r <;> simp

theorem mem_substitute {r x : Record} {rs : List Record} :
    x ∈ substitute r rs ↔
      (x = r ∧ ∃ y ∈ rs, y.identity = r.identity) ∨ x ∈ rs ∧ x.identity ≠ r.identity := by
  simp only [substitute, List.mem_map]
  constructor
  · rintro ⟨y, hy, rfl⟩
    by_cases h : y.sameAs r = true
    · exact .inl ⟨if_pos h, y, hy, Record.sameAs_iff.1 h⟩
    · rw [if_neg h]
      exact .inr ⟨hy, fun hi => h (Record.sameAs_iff.2 hi)⟩
  · rintro (⟨rfl, y, hy, hi⟩ | ⟨hx, hi⟩)
    · exact ⟨y, hy, if_pos (Record.sameAs_iff.2 hi)⟩
    · exact ⟨x, hx, if_neg (fun h => hi (Record.sameAs_iff.1 h))⟩

/-- After a replacement only the new copy has its identity. -/
theorem mem_replace {s : RecordSet} {r x : Record} :
    x ∈ s.replace r ↔ x = r ∨ x ∈ s ∧ x.identity ≠ r.identity := by
  rw [← mem_toList, toList_replace]
  cases h : s.contains r with
  | true =>
    obtain ⟨y, hy, hyr⟩ := contains_iff_exists.1 h
    rw [if_pos rfl, mem_substitute]
    simp only [mem_toList]
    exact or_congr_left (and_iff_left ⟨y, hy, hyr⟩)
  | false =>
    have hne : x ∈ s → x.identity ≠ r.identity := fun hx hi => by
      rw [contains_iff_exists.2 ⟨x, hx, hi⟩] at h
      cases h
    rw [if_neg Bool.false_ne_true, List.mem_append, List.mem_singleton, mem_toList, or_comm]
    exact or_congr_right ⟨fun hx => ⟨hx, hne hx⟩, And.left⟩

theorem isEmpty_insert (s : RecordSet) (r : Record) : (s.insert r).isEmpty = false := by
  rw [isEmpty_eq_false_iff]
  cases h : s.contains r with
  | true =>
    obtain ⟨x, hx, -⟩ := contains_iff_exists.1 h
    exact ⟨x, mem_insert.2 (.inl hx)⟩
  | false => exact ⟨r, mem_insert.2 (.inr ⟨rfl, h⟩)⟩

theorem mem_of_mem_insertAll {s : RecordSet} {rs : List Record} {x : Record}
    (h : x ∈ s.insertAll rs) : x ∈ s ∨ x ∈ rs := by
  induction rs generalizing s with
  | nil => exact .inl h
  | cons r rs ih =>
    rcases ih h with h | h
    · rcases mem_insert.1 h with h | ⟨rfl, -⟩
      · exact .inl h
      · exact .inr List.mem_cons_self
    · exact .inr (List.mem_cons_of_mem _ h)

theorem contains_insert {s : RecordSet} {r x : Record} :
    (s.insert r).contains x = true ↔ s.contains x = true ∨ r.identity = x.identity := by
  rw [contains_iff, contains_iff, toList_insert]
  by_cases h : s.contains r = true
  · rw [if_pos h, iff_self_or]
    intro hi
    rwa [← hi, ← contains_iff]
  · rw [if_neg h, List.map_append, List.mem_append, List.map_singleton, List.mem_singleton,
      eq_comm (a := r.identity)]

theorem contains_insertAll {s : RecordSet} {rs : List Record} {x : Record} :
    (s.insertAll rs).contains x = true ↔
      s.contains x = true ∨ ∃ r ∈ rs, r.identity = x.identity := by
  induction rs generalizing s with
  | nil => simp
  | cons r rs ih => simp [ih, contains_insert, or_assoc]

theorem contains_union {s t : RecordSet} {x : Record} :
    (s.union t).contains x = true ↔ s.contains x = true ∨ t.contains x = true := by
  rw [union, contains_insertAll, contains_iff_exists (s := t)]
  rfl

theorem contains_of_mem {s : RecordSet} {r : Record} (h : r ∈ s) : s.contains r = true :=
  contains_iff_exists.2 ⟨r, h, rfl⟩

theorem contains_congr {s : RecordSet} {a b : Record} (h : a.identity = b.identity) :
    s.contains a = s.contains b := by
  simp only [contains, Record.sameAs, h]

theorem isEmpty_insertAll {s : RecordSet} {rs : List Record} :
    (s.insertAll rs).isEmpty = true ↔ s.isEmpty = true ∧ rs = [] := by
  induction rs generalizing s with
  | nil => simp
  | cons r rs ih => simp [ih, isEmpty_insert]

theorem isEmpty_union {s t : RecordSet} :
    (s.union t).isEmpty = true ↔ s.isEmpty = true ∧ t.isEmpty = true := by
  rw [union, isEmpty_insertAll, ← List.isEmpty_iff]
  rfl

end RecordSet

end IterativeDns
