import IterativeDns.Alias
import IterativeDns.Proofs.Lookup.Records

/-!
# The work of a resolver

A resolver chases one question after the other, and all lookups of all chases share one session.
`Point` says where this work stands, down to the position of the lookup that is under way, and
`Advance` is one step of it: one of the lookup, or one between lookups, when a result is taken, an
alias is followed, a new chase begins, or the cache is rid of what has expired. Time passes as it
likes: each step is one of some resolver, whose client has its own clock, and only this client must
be an admitted one.

* **Whatever a chase does is a piece of work** (`work_of_chase`).
* Work makes up no records either: what holds of all records at a point holds of those at the next
  one, as far as it holds of those that the clients tell (`Advance.keeps`).
-/

namespace IterativeDns.Alias

open Resolver (Position)

variable {σ : Type}

/-! ### Points -/

/-- A point of the work of a resolver. `todo` are the questions that have still to be looked up,
each with the number of names that a chain may have from there on, and `found` is what the chase
has found. -/
inductive Point (σ : Type) where
  /-- No lookup is under way. The chase is over when nothing is left to do. -/
  | between (todo : List (Nat × Question)) (found : RecordSet) (s : Session σ)
  /-- The lookup of a question is under way; after it a chain may have `names` more names. -/
  | during (q : Question) (names : Nat) (todo : List (Nat × Question)) (found : RecordSet)
      (a : Position σ)
  /-- The chase has failed. -/
  | failed (failure : Failure) (s : Session σ)

def Point.session : Point σ → Session σ
  | between _ _ s => s
  | during _ _ _ _ a => a.session
  | failed _ s => s

variable (Admitted : Client σ → Prop)

/-- One step of the work of resolvers with admitted clients. -/
inductive Advance : Point σ → Point σ → Prop where
  | lookUp {R : Resolver σ} {q : Question} {names : Nat} {todo : List (Nat × Question)}
      {found : RecordSet} {s : Session σ} :
      Advance (.between ((names + 1, q) :: todo) found s) (.during q names todo found (R.start q s))
  /-- A chain may have no more names. -/
  | spent {limit : Int} {q : Question} {todo : List (Nat × Question)} {found : RecordSet}
      {s : Session σ} :
      Advance (.between ((0, q) :: todo) found s) (.failed (.tooManyAliases limit) s)
  /-- The lookup that is under way goes on. -/
  | act {R : Resolver σ} {q : Question} {names : Nat} {todo : List (Nat × Question)}
      {found : RecordSet} {a b : Position σ} (hadmitted : Admitted R.client) (hstep : R.Step a b) :
      Advance (.during q names todo found a) (.during q names todo found b)
  /-- The lookup has failed. -/
  | fail {e : Failure} {q : Question} {names : Nat} {todo : List (Nat × Question)}
      {found : RecordSet} {s : Session σ} :
      Advance (.during q names todo found (.closed (.error e) [] s)) (.failed e s)
  /-- The lookup has found what its question asks for. -/
  | settle {q : Question} {names : Nat} {todo : List (Nat × Question)} {found direct : RecordSet}
      {s : Session σ} (hanswered : direct.toList.any (·.answers q) = true) :
      Advance (.during q names todo found (.closed (.ok direct) [] s))
        (.between todo (found.union direct) s)
  /-- The lookup has found nothing but aliases. -/
  | follow {q : Question} {names : Nat} {todo : List (Nat × Question)} {found direct : RecordSet}
      {s : Session σ} (hopen : ¬direct.toList.any (·.answers q) = true) :
      Advance (.during q names todo found (.closed (.ok direct) [] s))
        (.between ((successors q direct).map (names, ·) ++ todo) (found.union direct) s)
  /-- A new chase begins after one that is over. -/
  | chase {limit : Int} {q : Question} {found : RecordSet} {s : Session σ} :
      Advance (.between [] found s) (.between [((limit + 1).toNat, q)] .empty s)
  /-- A new chase begins after one that has failed. -/
  | retry {limit : Int} {q : Question} {e : Failure} {s : Session σ} :
      Advance (.failed e s) (.between [((limit + 1).toNat, q)] .empty s)
  | evict {now : Instant} {todo : List (Nat × Question)} {found : RecordSet} {s : Session σ} :
      Advance (.between todo found s)
        (.between todo found { s with cache := (s.cache.evictExpired now).2 })

/-- Any number of steps. -/
abbrev Work : Point σ → Point σ → Prop :=
  Relation.ReflTransGen (Advance Admitted)

/-- Where a chase has come to, with some questions left to do. -/
def comesTo (todo : List (Nat × Question)) : Except Failure RecordSet × Session σ → Point σ
  | (.ok found, s) => .between todo found s
  | (.error e, s) => .failed e s

variable {Admitted}

/-! ### Chases are work -/

theorem work_of_run {R : Resolver σ} (hR : Admitted R.client) {q : Question} {names : Nat}
    {todo : List (Nat × Question)} {found : RecordSet} {a b : Position σ} (h : R.Run a b) :
    Work Admitted (.during q names todo found a) (.during q names todo found b) := by
  induction h with
  | refl => exact .refl
  | tail _ hstep ih => exact ih.tail (.act hR hstep)

/-- If single questions are worked off, so is a list of them. -/
theorem work_of_chaseAll {names : Nat}
    {chase : Question → RecordSet → Session σ → Option (Except Failure RecordSet × Session σ)}
    (hchase : ∀ q todo found s r, chase q found s = some r →
      Work Admitted (.between ((names, q) :: todo) found s) (comesTo todo r))
    {qs : List Question} {todo : List (Nat × Question)} {found : RecordSet} {s : Session σ}
    {r : Except Failure RecordSet × Session σ} (h : chaseAll chase qs found s = some r) :
    Work Admitted (.between (qs.map (names, ·) ++ todo) found s) (comesTo todo r) := by
  induction qs generalizing found s with
  | nil =>
    cases h
    exact .refl
  | cons q qs ih =>
    rw [chaseAll] at h
    cases hq : chase q found s with
    | none =>
      rw [hq] at h
      cases h
    | some part =>
      rw [hq] at h
      have hfirst := hchase q (qs.map (names, ·) ++ todo) found s part hq
      obtain ⟨result, t⟩ := part
      cases result with
      | error e =>
        cases h
        exact hfirst
      | ok more => exact hfirst.trans (ih h)

theorem work_of_chaseFrom {R : Resolver σ} (hR : Admitted R.client) {limit : Int} {names : Nat}
    {q : Question} {todo : List (Nat × Question)} {found : RecordSet} {s : Session σ}
    {r : Except Failure RecordSet × Session σ}
    (h : chaseFrom R.lookup limit names q found s = some r) :
    Work Admitted (.between ((names, q) :: todo) found s) (comesTo todo r) := by
  induction names generalizing q todo found s r with
  | zero =>
    cases h
    exact .single .spent
  | succ names ih =>
    rw [chaseFrom] at h
    cases hlookup : R.lookup q s with
    | none =>
      rw [hlookup] at h
      cases h
    | some looked =>
      rw [hlookup] at h
      obtain ⟨result, t⟩ := looked
      have hlooked : Work Admitted (.between ((names + 1, q) :: todo) found s)
          (.during q names todo found (.closed result [] t)) :=
        .head (.lookUp (R := R)) (work_of_run hR (Resolver.run_of_lookup hlookup))
      cases result with
      | error e =>
        cases h
        exact hlooked.tail .fail
      | ok direct =>
        simp only at h
        split at h
        · next hanswered =>
          cases h
          exact hlooked.tail (.settle hanswered)
        · next hopen =>
          refine (hlooked.tail (.follow hopen)).trans (work_of_chaseAll ?_ h)
          exact fun _ _ _ _ _ => ih

/-- A chase that begins when no other is under way. -/
theorem work_of_chase {R : Resolver σ} (hR : Admitted R.client) {limit : Int} {q : Question}
    {found : RecordSet} {s : Session σ} {r : Except Failure RecordSet × Session σ}
    (h : chase R.lookup limit q s = some r) :
    Work Admitted (.between [] found s) (comesTo [] r) := by
  have hbegins : Advance Admitted (.between [] found s)
      (.between [((limit + 1).toNat, q)] .empty s) := .chase
  exact (work_of_chaseFrom hR h).head hbegins

/-! ### What work preserves -/

variable {P : Record → Prop}

/-- Every record at a point of the work has the property: those of the cache and of the history,
those the lookup has at hand, and those that have been found. -/
def Point.Keeps (P : Record → Prop) : Point σ → Prop
  | between _ found s => (∀ r ∈ found, P r) ∧ s.Keeps P
  | during _ _ _ found a => (∀ r ∈ found, P r) ∧ a.Keeps P
  | failed _ s => s.Keeps P

theorem Point.Keeps.session {p : Point σ} (h : p.Keeps P) : p.session.Keeps P := by
  cases p with
  | between todo found s => exact h.2
  | during q names todo found a => exact h.2.session
  | failed e s => exact h

theorem forall_mem_empty : ∀ r ∈ RecordSet.empty, P r := nofun

theorem Advance.keeps (htells : ∀ C, Admitted C → C.Tells P) {p p' : Point σ}
    (hadvance : Advance Admitted p p') (h : p.Keeps P) : p'.Keeps P := by
  cases hadvance with
  | lookUp => exact ⟨h.1, Position.keeps_start h.2 _⟩
  | spent => exact h.2
  | act hadmitted hstep => exact ⟨h.1, hstep.keeps (htells _ hadmitted) h.2⟩
  | fail => exact h.2.session
  | settle _ => exact ⟨RecordSet.forall_union h.1 (h.2.atHand _ rfl), h.2.session⟩
  | follow _ => exact ⟨RecordSet.forall_union h.1 (h.2.atHand _ rfl), h.2.session⟩
  | chase => exact ⟨forall_mem_empty, h.2⟩
  | retry => exact ⟨forall_mem_empty, h⟩
  | evict =>
    obtain ⟨hfound, hwellFormed, hcache, hhistory⟩ := h
    refine ⟨hfound, hwellFormed.evictExpired _, ?_, hhistory⟩
    exact fun r hr => hcache r (Cache.mem_records_evictExpired.1 hr).1

theorem Work.keeps (htells : ∀ C, Admitted C → C.Tells P) {p p' : Point σ}
    (hwork : Work Admitted p p') (h : p.Keeps P) : p'.Keeps P := by
  induction hwork with
  | refl => exact h
  | tail _ hadvance ih => exact hadvance.keeps htells ih

end IterativeDns.Alias
