import IterativeDns.Alias
import IterativeDns.Proofs.Lookup.Answers
import Mathlib.Logic.Relation

/-!
# What following aliases finds

Where every lookup of a question has the same result, aliases make a graph of the questions: a
question leads to another one if its result holds nothing but aliases and one of them points
there (`Leads`). A chase walks through this graph without remembering where it has been.

**It collects what is told at the questions that can be reached, if there are no failures among
them and no chain of aliases is longer than its limit; and otherwise it fails**
(`chase_collects_closure`). The order in which results list their records plays no part, and it
may be another one each time.

The induction is on the number of names a chain may still have. What it says of one question it
says of a list of questions as well (`Outcome`), so that the questions after an alias are treated
like the one a chase begins with.
-/

namespace IterativeDns.Alias

variable {σ : Type}

/-! ### Steady lookups -/

/-- Two results are the same failure, or they hold the same records in whatever order and
copies. -/
def SameResult : Except Failure RecordSet → Except Failure RecordSet → Prop
  | .ok s, .ok t => ∀ r, s.contains r = t.contains r
  | .error e, .error f => e = f
  | _, _ => False

/-- In every state a lookup of a question has the result that is given for it. -/
def Gives (look : Look σ) (answer : Question → Except Failure RecordSet) : Prop :=
  ∀ q s, ∃ result t, look q s = some (result, t) ∧ SameResult result (answer q)

section Graph

variable (answer : Question → Except Failure RecordSet)

/-! ### The graph of aliases -/

/-- The result for `q` has no record of the type of `q`, and an alias to the name of `p`. -/
def Leads (q p : Question) : Prop :=
  ∃ found, answer q = .ok found ∧ (∀ r ∈ found, r.recordType ≠ q.recordType) ∧
    ∃ r ∈ found, ∃ target, r.recordType = .cname ∧ r.target? = some target ∧
      p = q.withName target

/-- Following any number of aliases. -/
abbrev Reaches : Question → Question → Prop :=
  Relation.ReflTransGen (Leads answer)

/-- Following a given number of aliases. -/
inductive Chain : Nat → Question → Question → Prop where
  | nil (q : Question) : Chain 0 q q
  | cons {n : Nat} {q p last : Question} (hlead : Leads answer q p) (hrest : Chain n p last) :
      Chain (n + 1) q last

/-- The result for a question is a set that has the record. -/
def Holds (q : Question) (r : Record) : Prop :=
  ∃ found, answer q = .ok found ∧ found.contains r = true

/-- Nothing that can be reached from the question fails, and no chain has as many as `n`
aliases. -/
def Settles (n : Nat) (q : Question) : Prop :=
  (¬∃ p, Chain answer n q p) ∧ ∀ p, Reaches answer q p → ∃ found, answer p = .ok found

variable {answer}

theorem exists_chain_succ_iff {n : Nat} {q : Question} :
    (∃ last, Chain answer (n + 1) q last) ↔
      ∃ p, Leads answer q p ∧ ∃ last, Chain answer n p last := by
  constructor
  · intro h
    obtain ⟨last, h⟩ := h
    cases h with
    | cons hlead hrest => exact ⟨_, hlead, last, hrest⟩
  · intro h
    obtain ⟨p, hlead, last, hrest⟩ := h
    exact ⟨last, .cons hlead hrest⟩

/-- What holds somewhere on the way holds at the beginning or after the first alias. -/
theorem exists_reaches_iff {motive : Question → Prop} {q : Question} :
    (∃ p, Reaches answer q p ∧ motive p) ↔
      motive q ∨ ∃ p, Leads answer q p ∧ ∃ last, Reaches answer p last ∧ motive last := by
  constructor
  · intro h
    obtain ⟨last, hreach, hlast⟩ := h
    rcases hreach.cases_head with rfl | ⟨p, hlead, hrest⟩
    · exact .inl hlast
    · exact .inr ⟨p, hlead, last, hrest, hlast⟩
  · intro h
    rcases h with hq | ⟨p, hlead, last, hrest, hlast⟩
    · exact ⟨q, .refl, hq⟩
    · exact ⟨last, hrest.head hlead, hlast⟩

theorem not_settles_zero (q : Question) : ¬Settles answer 0 q :=
  fun h => h.1 ⟨q, .nil q⟩

theorem settles_succ_iff {n : Nat} {q : Question} :
    Settles answer (n + 1) q ↔
      (∃ found, answer q = .ok found) ∧ ∀ p, Leads answer q p → Settles answer n p := by
  simp only [Settles, exists_chain_succ_iff]
  constructor
  · intro h
    obtain ⟨hshort, hgood⟩ := h
    refine ⟨hgood q .refl, ?_⟩
    intro p hlead
    refine ⟨fun hchain => hshort ⟨p, hlead, hchain⟩, ?_⟩
    exact fun last hrest => hgood last (hrest.head hlead)
  · intro h
    obtain ⟨hq, hafter⟩ := h
    constructor
    · intro hlong
      obtain ⟨p, hlead, hchain⟩ := hlong
      exact (hafter p hlead).1 hchain
    · intro last hreach
      rcases hreach.cases_head with rfl | ⟨p, hlead, hrest⟩
      · exact hq
      · exact (hafter p hlead).2 last hrest

end Graph

/-! ### Results that are the same lead to the same questions -/

theorem target?_congr {a b : Record} (h : a.identity = b.identity) : target? a = target? b := by
  have htype : a.recordType = b.recordType :=
    congrArg (fun k => k.2.1) (Record.key_eq_of_identity_eq h)
  have hdata : a.data = b.data := congrArg Prod.snd h
  simp only [target?, Record.target?, htype, hdata]

theorem target?_eq_some {r : Record} {target : String} :
    target? r = some target ↔ r.recordType = .cname ∧ r.target? = some target := by
  rw [target?]
  split <;> simp_all

theorem mem_successors {q p : Question} {found : RecordSet} :
    p ∈ successors q found ↔ ∃ r ∈ found, ∃ target, target? r = some target ∧
      p = q.withName target := by
  simp only [successors, List.mem_reverse, List.mem_filterMap, Option.map_eq_some_iff]
  simp only [eq_comm, RecordSet.mem_toList]

/-- A record that belongs to a question answers it if it has the type asked for. -/
theorem answers_iff_recordType {q : Question} {r : Record} (h : r.BelongsTo q) :
    r.answers q = true ↔ r.recordType = q.recordType := by
  obtain ⟨hname, hclass, -⟩ := h
  rw [Record.answers_iff]
  constructor
  · intro hkey
    exact congrArg (fun k => k.2.1) hkey
  · intro htype
    exact Prod.ext hname (Prod.ext htype hclass)

section Results

variable {answer : Question → Except Failure RecordSet} {q : Question} {direct found : RecordSet}

/-- A record of one of two results that are the same has its copy in the other. -/
theorem exists_copy {s t : RecordSet} (hsame : ∀ r, s.contains r = t.contains r) {r : Record}
    (hr : r ∈ s) : ∃ x ∈ t, x.identity = r.identity := by
  rw [← RecordSet.contains_iff_exists, ← hsame]
  exact RecordSet.contains_of_mem hr

/-- The questions that are asked next are those the question leads to. -/
theorem mem_successors_iff_leads (hanswer : answer q = .ok found)
    (hsame : ∀ r, direct.contains r = found.contains r)
    (hopen : ∀ r ∈ found, r.recordType ≠ q.recordType) {p : Question} :
    p ∈ successors q direct ↔ Leads answer q p := by
  rw [mem_successors]
  constructor
  · intro h
    obtain ⟨r, hr, target, htarget, hp⟩ := h
    obtain ⟨x, hx, hi⟩ := exists_copy hsame hr
    rw [← target?_congr hi, target?_eq_some] at htarget
    exact ⟨found, hanswer, hopen, x, hx, target, htarget.1, htarget.2, hp⟩
  · intro h
    obtain ⟨found', hanswer', -, r, hr, target, htype, htarget, hp⟩ := h
    obtain rfl : found = found' := Except.ok.inj (hanswer.symm.trans hanswer')
    obtain ⟨x, hx, hi⟩ := exists_copy (fun r => (hsame r).symm) hr
    refine ⟨x, hx, target, ?_, hp⟩
    rw [target?_congr hi, target?_eq_some]
    exact ⟨htype, htarget⟩

/-- Whether a result answers its question can be read off the types of its records. -/
theorem any_answers_iff (howned : ∀ r ∈ found, r.BelongsTo q)
    (hsame : ∀ r, direct.contains r = found.contains r) :
    direct.toList.any (·.answers q) = true ↔ ∃ r ∈ found, r.recordType = q.recordType := by
  rw [List.any_eq_true]
  constructor
  · intro h
    obtain ⟨r, hr, hanswers⟩ := h
    obtain ⟨x, hx, hi⟩ := exists_copy hsame hr
    refine ⟨x, hx, (answers_iff_recordType (howned x hx)).1 ?_⟩
    rw [Record.answers_iff, Record.key_eq_of_identity_eq hi]
    exact Record.answers_iff.1 hanswers
  · intro h
    obtain ⟨x, hx, htype⟩ := h
    obtain ⟨r, hr, hi⟩ := exists_copy (fun r => (hsame r).symm) hx
    refine ⟨r, hr, ?_⟩
    rw [Record.answers_iff, Record.key_eq_of_identity_eq hi]
    exact Record.answers_iff.1 ((answers_iff_recordType (howned x hx)).2 htype)

theorem not_leads_of_answered (hanswer : answer q = .ok found)
    (hanswered : ∃ r ∈ found, r.recordType = q.recordType) (p : Question) : ¬Leads answer q p := by
  intro h
  obtain ⟨found', hanswer', hopen, -⟩ := h
  obtain rfl : found = found' := Except.ok.inj (hanswer.symm.trans hanswer')
  obtain ⟨r, hr, htype⟩ := hanswered
  exact hopen r hr htype

end Results

/-! ### The outcome of a chase -/

/-- How a chase ends that has `found` something and begins at `starts`, with `n` names left for
each of the chains. -/
structure Outcome (answer : Question → Except Failure RecordSet) (limit : Int) (n : Nat)
    (starts : List Question) (found : RecordSet) (result : Except Failure RecordSet) : Prop where
  settles : (∃ all, result = .ok all) ↔ ∀ q ∈ starts, Settles answer n q
  collects : ∀ all, result = .ok all → ∀ r, all.contains r = true ↔
    found.contains r = true ∨ ∃ q ∈ starts, ∃ p, Reaches answer q p ∧ Holds answer p r
  fails : ∀ e, result = .error e → e = .tooManyAliases limit ∨
    ∃ q ∈ starts, ∃ p, Reaches answer q p ∧ answer p = .error e

section Outcomes

variable {answer : Question → Except Failure RecordSet} {limit : Int} {n : Nat} {q : Question}
  {qs : List Question} {found : RecordSet}

theorem Outcome.nil : Outcome answer limit n [] found (.ok found) where
  settles := by simp
  collects := by
    intro all h
    cases h
    simp
  fails := by
    intro e h
    cases h

/-- The chase of a list fails with the first of its questions that fails. -/
theorem Outcome.cons_error {e : Failure} (h : Outcome answer limit n [q] found (.error e)) :
    Outcome answer limit n (q :: qs) found (.error e) where
  settles := by
    constructor
    · intro hok
      obtain ⟨all, hok⟩ := hok
      cases hok
    · intro hall
      have hq : ∀ p ∈ [q], Settles answer n p := by
        simpa using hall q List.mem_cons_self
      obtain ⟨all, hok⟩ := h.settles.2 hq
      cases hok
  collects := by
    intro all hok
    cases hok
  fails := by
    intro e' he
    rcases h.fails e' he with hlimit | ⟨p, hp, hfail⟩
    · exact .inl hlimit
    · obtain rfl := List.mem_singleton.1 hp
      exact .inr ⟨p, List.mem_cons_self, hfail⟩

theorem Outcome.cons {more : RecordSet} {result : Except Failure RecordSet}
    (h : Outcome answer limit n [q] found (.ok more))
    (hrest : Outcome answer limit n qs more result) :
    Outcome answer limit n (q :: qs) found result where
  settles := by
    have hq : ∀ p ∈ [q], Settles answer n p := h.settles.1 ⟨more, rfl⟩
    rw [List.forall_mem_singleton] at hq
    rw [hrest.settles, List.forall_mem_cons, and_iff_right hq]
  collects := by
    intro all hok r
    rw [hrest.collects all hok, h.collects more rfl, List.exists_mem_cons_iff, or_assoc]
    simp
  fails := by
    intro e he
    rcases hrest.fails e he with hlimit | ⟨p, hp, hfail⟩
    · exact .inl hlimit
    · exact .inr ⟨p, List.mem_cons_of_mem q hp, hfail⟩

/-- A chase that must look a name up with none left. -/
theorem Outcome.spent :
    Outcome answer limit 0 [q] found (.error (.tooManyAliases limit)) where
  settles := by
    constructor
    · intro hok
      obtain ⟨all, hok⟩ := hok
      cases hok
    · intro hall
      exact absurd (hall q List.mem_cons_self) (not_settles_zero q)
  collects := by
    intro all hok
    cases hok
  fails := by
    intro e he
    exact .inl (Except.error.inj he).symm

/-- The lookup of the question fails. -/
theorem Outcome.failed {e : Failure} (hanswer : answer q = .error e) :
    Outcome answer limit (n + 1) [q] found (.error e) where
  settles := by
    constructor
    · intro hok
      obtain ⟨all, hok⟩ := hok
      cases hok
    · intro hall
      obtain ⟨⟨part, hok⟩, -⟩ := settles_succ_iff.1 (hall q List.mem_cons_self)
      rw [hanswer] at hok
      cases hok
  collects := by
    intro all hok
    cases hok
  fails := by
    intro e' he
    cases he
    exact .inr ⟨q, List.mem_cons_self, q, .refl, hanswer⟩

/-- After a lookup the chase goes on at the questions that its result leads to. -/
theorem Outcome.looked {direct part : RecordSet} {result : Except Failure RecordSet}
    (hanswer : answer q = .ok part) (hsame : ∀ r, direct.contains r = part.contains r)
    (hnext : ∀ p, p ∈ qs ↔ Leads answer q p)
    (h : Outcome answer limit n qs (found.union direct) result) :
    Outcome answer limit (n + 1) [q] found result where
  settles := by
    rw [h.settles, List.forall_mem_singleton, settles_succ_iff, and_iff_right ⟨part, hanswer⟩]
    simp only [hnext]
  collects := by
    intro all hok r
    have hhere : Holds answer q r ↔ direct.contains r = true := by
      simp [Holds, hanswer, hsame]
    rw [h.collects all hok, RecordSet.contains_union, or_assoc, ← hhere]
    simp only [hnext]
    rw [← exists_reaches_iff (motive := fun p => Holds answer p r)]
    simp
  fails := by
    intro e he
    rcases h.fails e he with hlimit | ⟨p, hp, last, hreach, hfail⟩
    · exact .inl hlimit
    · exact .inr ⟨q, List.mem_cons_self, last, hreach.head ((hnext p).1 hp), hfail⟩

/-- If the outcomes of single questions are known, so is that of a list of questions. -/
theorem chaseAll_outcome
    {chase : Question → RecordSet → σ → Option (Except Failure RecordSet × σ)}
    (hchase : ∀ q found s, ∃ result t, chase q found s = some (result, t) ∧
      Outcome answer limit n [q] found result)
    (qs : List Question) (found : RecordSet) (s : σ) :
    ∃ result t, chaseAll chase qs found s = some (result, t) ∧
      Outcome answer limit n qs found result := by
  induction qs generalizing found s with
  | nil => exact ⟨.ok found, s, rfl, .nil⟩
  | cons q qs ih =>
    obtain ⟨result, t, hq, houtcome⟩ := hchase q found s
    simp only [chaseAll, hq]
    cases result with
    | error e => exact ⟨.error e, t, rfl, houtcome.cons_error⟩
    | ok more =>
      obtain ⟨result, u, hqs, hrest⟩ := ih more t
      exact ⟨result, u, hqs, houtcome.cons hrest⟩

theorem chaseFrom_outcome {look : Look σ} (hlook : Gives look answer)
    (howned : ∀ q found, answer q = .ok found → ∀ r ∈ found, r.BelongsTo q) (limit : Int)
    (names : Nat) (q : Question) (found : RecordSet) (s : σ) :
    ∃ result t, chaseFrom look limit names q found s = some (result, t) ∧
      Outcome answer limit names [q] found result := by
  induction names generalizing q found s with
  | zero => exact ⟨_, s, rfl, .spent⟩
  | succ names ih =>
    obtain ⟨result, t, hlooked, hresult⟩ := hlook q s
    simp only [chaseFrom, hlooked]
    cases hanswer : answer q with
    | error e =>
      rw [hanswer] at hresult
      cases result with
      | ok direct => exact hresult.elim
      | error f =>
        obtain rfl : f = e := hresult
        exact ⟨.error f, t, rfl, .failed hanswer⟩
    | ok part =>
      rw [hanswer] at hresult
      cases result with
      | error f => exact hresult.elim
      | ok direct =>
        have hsame : ∀ r, direct.contains r = part.contains r := hresult
        have hbelongs := howned q part hanswer
        by_cases hanswered : direct.toList.any (·.answers q) = true
        · -- the result settles the question, so it leads nowhere
          have hnext : ∀ p, p ∈ ([] : List Question) ↔ Leads answer q p := by
            intro p
            have := not_leads_of_answered hanswer
              ((any_answers_iff hbelongs hsame).1 hanswered) p
            simp [this]
          simp only [if_pos hanswered]
          exact ⟨_, t, rfl, .looked hanswer hsame hnext .nil⟩
        · have hopen : ∀ r ∈ part, r.recordType ≠ q.recordType := by
            intro r hr htype
            exact hanswered ((any_answers_iff hbelongs hsame).2 ⟨r, hr, htype⟩)
          simp only [if_neg hanswered]
          obtain ⟨result, u, hrest, houtcome⟩ :=
            chaseAll_outcome ih (successors q direct) (found.union direct) t
          exact ⟨result, u, hrest, houtcome.looked hanswer hsame
            fun p => mem_successors_iff_leads hanswer hsame hopen⟩

end Outcomes

/-! ### Main result -/

/-- Where lookups are steady, a chase has a result. It is a set of records exactly if the limit
is not negative, no chain has more aliases than the limit and nothing that can be reached fails,
and the set holds exactly what the results of the questions that can be reached hold. If it is a
failure, it is one of those results or says that there were too many aliases. -/
theorem chase_collects_closure {look : Look σ} {answer : Question → Except Failure RecordSet}
    (hlook : Gives look answer)
    (howned : ∀ q found, answer q = .ok found → ∀ r ∈ found, r.BelongsTo q)
    (limit : Int) (q : Question) (s : σ) :
    ∃ result t, chase look limit q s = some (result, t) ∧
      ((∃ found, result = .ok found) ↔
        0 ≤ limit ∧ (¬∃ p, Chain answer (limit.toNat + 1) q p) ∧
          ∀ p, Reaches answer q p → ∃ found, answer p = .ok found) ∧
      (∀ found, result = .ok found → ∀ r, found.contains r = true ↔
        ∃ p, Reaches answer q p ∧ Holds answer p r) ∧
      (∀ e, result = .error e → e = .tooManyAliases limit ∨
        ∃ p, Reaches answer q p ∧ answer p = .error e) := by
  obtain ⟨result, t, hchase, houtcome⟩ :=
    chaseFrom_outcome hlook howned limit (limit + 1).toNat q .empty s
  refine ⟨result, t, hchase, ?_, ?_, ?_⟩
  · rw [houtcome.settles, List.forall_mem_singleton]
    by_cases hlimit : 0 ≤ limit
    · rw [and_iff_right hlimit, Int.toNat_add hlimit Int.one_nonneg]
      rfl
    · -- below zero there is not even a name left for the question itself
      have hnone : (limit + 1).toNat = 0 := by omega
      rw [hnone, iff_false_right (fun h => hlimit h.1)]
      exact not_settles_zero q
  · intro found hok r
    have hempty : ¬RecordSet.empty.contains r = true := Bool.false_ne_true
    rw [houtcome.collects found hok, or_iff_right hempty]
    simp
  · intro e he
    simpa using houtcome.fails e he

/-! ### Two ways to the same name

`a` is an alias of both `b` and `c`, and each of these is an alias of `d`. -/

namespace Diamond

def question (name : String) : Question :=
  ⟨name, .a, .«in»⟩

def pointer (name target : String) : Record :=
  .permanent ⟨name, .cname, .«in»⟩ (.name target)

/-- The address of `d`. -/
def sought : Record :=
  .permanent (question "d") (.address (.ofQuad 10 0 0 4))

def records : List Record :=
  [pointer "a" "b", pointer "a" "c", pointer "b" "d", pointer "c" "d", sought]

def forward : RecordSet := ⟨records, by decide⟩

def backward : RecordSet := ⟨records.reverse, by decide⟩

def answer (q : Question) : Except Failure RecordSet :=
  .ok (forward.filter (Record.isAnswer q))

/-- A lookup that lists its records the other way round each time. -/
def look : Look Bool := fun q forwards =>
  some (.ok ((if forwards then forward else backward).filter (Record.isAnswer q)), !forwards)

theorem gives : Gives look answer := by
  intro q forwards
  refine ⟨_, _, rfl, ?_⟩
  intro r
  rw [Bool.eq_iff_iff, RecordSet.contains_iff_exists, RecordSet.contains_iff_exists]
  cases forwards <;> simp [← RecordSet.mem_toList, forward, backward]

theorem owned (q : Question) (found : RecordSet) (h : answer q = .ok found) :
    ∀ r ∈ found, r.BelongsTo q := by
  cases h
  intro r hr
  exact Record.belongsTo_iff.2 (RecordSet.mem_filter.1 hr).2

end Diamond

/-- With two aliases in a row the address of `d` is found from `a`; with one it is not, since
there is a chain of two. -/
theorem Diamond.two_aliases_needed :
    (∃ found t, chase look 2 (question "a") true = some (.ok found, t) ∧
      ∃ p, Reaches answer (question "a") p ∧ Holds answer p sought) ∧
    (∃ t, chase look 1 (question "a") true = some (.error (.tooManyAliases 1), t)) ∧
    ∃ p, Chain answer 2 (question "a") p := by
  have htwo : (chase look 2 (question "a") true).map
      (fun r => r.1.toOption.map fun found => found.contains sought) = some (some true) := by
    decide +kernel
  have hone : (chase look 1 (question "a") true).map Prod.fst =
      some (.error (.tooManyAliases 1)) := by
    decide +kernel
  constructor
  · obtain ⟨result, t, hchase, -, hcollects, -⟩ :=
      chase_collects_closure gives owned 2 (question "a") true
    rw [hchase] at htwo
    cases result with
    | error e => cases htwo
    | ok found =>
      have hsought : found.contains sought = true := Option.some.inj (Option.some.inj htwo)
      exact ⟨found, t, hchase, (hcollects found rfl sought).1 hsought⟩
  · obtain ⟨result, t, hchase, hsettles, -⟩ :=
      chase_collects_closure gives owned 1 (question "a") true
    rw [hchase] at hone
    obtain rfl : result = .error (.tooManyAliases 1) := Option.some.inj hone
    refine ⟨⟨t, hchase⟩, ?_⟩
    -- no lookup fails, so it can only be the length of a chain
    by_contra hshort
    obtain ⟨found, hok⟩ := hsettles.2 ⟨by decide, hshort, fun p _ => ⟨_, rfl⟩⟩
    cases hok

end IterativeDns.Alias
