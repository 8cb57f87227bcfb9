import IterativeDns.Cache

/-!
# Nameservers known to a cache

Which servers a resolver may ask next is read off the cache: the delegation of the closest
enclosing zone that has one, and the addresses kept for the servers it names. Both lists have a
fixed order, so that a lookup asks the same servers in the same order every time.
-/

namespace IterativeDns.Cache

/-- Nameserver records by the name they point at; a record that points at none comes first. -/
def byTarget (rs : List Record) : List Record :=
  rs.mergeSort fun a b => (compare a.target? b.target?).isLE

/-- Address records by address; a record without one comes first. -/
def byAddress (rs : List Record) : List Record :=
  rs.mergeSort fun a b => (compare a.address? b.address?).isLE

/-- The nameserver records of the first of some zones that has any. -/
def firstDelegation (now : Instant) (recordClass : RecordClass) :
    List String → Cache → List Record × Cache
  | [], c => ([], c)
  | zone :: zones, c =>
    let (found, c) := c.get now (.ofText zone .ns recordClass)
    if found.isEmpty then firstDelegation now recordClass zones c
    else (byTarget found.toList, c)

/-- The nameserver records of the closest zone around a question that has any. -/
def bestNameservers (c : Cache) (now : Instant) (q : Question) : List Record × Cache :=
  firstDelegation now q.recordClass q.zones c

/-- The types of the addresses a resolver may use. -/
def addressTypes (useIpv6 : Bool) : List RecordType :=
  if useIpv6 then [.a, .aaaa] else [.a]

/-- The questions for the addresses of a nameserver. -/
def addressQuestions (useIpv6 : Bool) (ns : Record) : List Question :=
  match ns.target? with
  | some target => (addressTypes useIpv6).map fun t => .ofText target t ns.question.recordClass
  | none => []

/-- Adds the records that answer some questions, each answer in the order of its addresses. -/
def collectAddresses (now : Instant) : List Question → RecordSet → Cache → RecordSet × Cache
  | [], found, c => (found, c)
  | q :: qs, found, c =>
    let (answers, c) := c.get now q
    collectAddresses now qs (found.insertAll (byAddress answers.toList)) c

/-- The known addresses of some nameservers: server by server, version 4 before version 6, each
once. -/
def knownAddresses (c : Cache) (now : Instant) (nameservers : List Record) (useIpv6 : Bool) :
    RecordSet × Cache :=
  collectAddresses now (nameservers.flatMap (addressQuestions useIpv6)) .empty c

/-! ### Reading leaves the entries alone -/

@[simp] theorem entries_firstDelegation (now : Instant) (recordClass : RecordClass)
    (zones : List String) (c : Cache) :
    (firstDelegation now recordClass zones c).2.entries = c.entries := by
  induction zones generalizing c with
  | nil => rfl
  | cons zone zones ih =>
    simp only [firstDelegation]
    split
    · rw [ih]; simp
    · simp

@[simp] theorem entries_bestNameservers (c : Cache) (now : Instant) (q : Question) :
    (c.bestNameservers now q).2.entries = c.entries := by
  simp [bestNameservers]

@[simp] theorem entries_collectAddresses (now : Instant) (qs : List Question) (found : RecordSet)
    (c : Cache) : (collectAddresses now qs found c).2.entries = c.entries := by
  induction qs generalizing found c with
  | nil => rfl
  | cons q qs ih => simp only [collectAddresses]; rw [ih]; simp

@[simp] theorem entries_knownAddresses (c : Cache) (now : Instant) (nameservers : List Record)
    (useIpv6 : Bool) : (c.knownAddresses now nameservers useIpv6).2.entries = c.entries := by
  simp [knownAddresses]

/-! ### Which delegation is found -/

theorem byTarget_eq_nil_iff {rs : List Record} : byTarget rs = [] ↔ rs = [] := by
  rw [← List.length_eq_zero_iff, byTarget, List.length_mergeSort, List.length_eq_zero_iff]

theorem firstDelegation_cons (now : Instant) (recordClass : RecordClass) (zone : String)
    (zones : List String) (c : Cache) :
    firstDelegation now recordClass (zone :: zones) c =
      if (c.live now (.ofText zone .ns recordClass)).isEmpty then
        firstDelegation now recordClass zones (c.get now (.ofText zone .ns recordClass)).2
      else
        (byTarget (c.live now (.ofText zone .ns recordClass)).toList,
          (c.get now (.ofText zone .ns recordClass)).2) := rfl

/-- A delegation is found if some zone has a nameserver record that is still good. -/
theorem firstDelegation_ne_nil_iff {now : Instant} {recordClass : RecordClass}
    {zones : List String} {c : Cache} :
    (firstDelegation now recordClass zones c).1 ≠ [] ↔
      ∃ zone ∈ zones, ∃ r, r ∈ c.live now (.ofText zone .ns recordClass) := by
  induction zones generalizing c with
  | nil => simp [firstDelegation]
  | cons zone zones ih =>
    simp only [firstDelegation_cons, List.mem_cons, exists_eq_or_imp]
    by_cases h : (c.live now (.ofText zone .ns recordClass)).isEmpty = true
    · have hno : ¬∃ r, r ∈ c.live now (.ofText zone .ns recordClass) := by
        rw [← RecordSet.isEmpty_eq_false_iff, h]
        exact Bool.noConfusion
      rw [if_pos h, ih, or_iff_right hno]
      simp only [live_congr (entries_get c now _)]
    · have hsome := RecordSet.isEmpty_eq_false_iff.1 (Bool.eq_false_iff.2 h)
      rw [if_neg h, Ne, byTarget_eq_nil_iff, iff_true_right (.inl hsome)]
      obtain ⟨r, hr⟩ := hsome
      exact List.ne_nil_of_mem hr

end IterativeDns.Cache
