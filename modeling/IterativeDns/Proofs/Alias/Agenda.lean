import IterativeDns.Proofs.Alias.Closure
import Mathlib.Logic.Hydra

/-!
# The agenda of a chase

A chase can be carried out with a stack of questions, each with what is left of the budget. `Turn`
is one turn of the loop that does so: it takes the question on top, looks it up, and puts the names
that aliases lead to in its place, with one unit less. The agenda also keeps the lookups that have
been made, in turn and with their results; what a turn does never depends on them.

* **The loop comes to an end whatever the lookups return** (`turn_wellFounded`), although there is
  no bound on how many questions a turn adds: every one it adds has less left than the one it takes
  away. **It ends with what `chase` returns** (`chase_eq_some_iff`).
* **Only names at the end of a chain of aliases within the limit are looked up**
  (`chase_keeps_to_budget`). All links of the chain have been returned by earlier lookups of the
  same chase (`Linked`). `Fits` is the invariant; it says so of the questions that are still to be
  looked up as well.
-/

namespace IterativeDns.Alias

variable {σ : Type}

/-- Lookups with their results. -/
abbrev Lookups := List (Question × Except Failure RecordSet)

/-- What is still to be looked up, the top of the stack first, and what has come of the rest. -/
structure Agenda (σ : Type) where
  pending : List (Question × Int)
  found : RecordSet
  /-- The lookups that have been made, the last one at the end. -/
  asked : Lookups
  state : σ
  /-- The result, when the loop is over. -/
  outcome? : Option (Except Failure RecordSet)

/-- The agenda a chase begins with. -/
def Agenda.start (limit : Int) (q : Question) (s : σ) : Agenda σ :=
  ⟨[(q, limit)], .empty, [], s, none⟩

/-- The loop goes on but for a lookup without a result. -/
def Agenda.Stuck (look : Look σ) (a : Agenda σ) : Prop :=
  a.outcome? = none ∧ ∃ q budget rest, a.pending = (q, budget) :: rest ∧ 0 ≤ budget ∧
    look q a.state = none

section Loop

variable (look : Look σ) (limit : Int)

/-- One turn of the loop. -/
inductive Turn : Agenda σ → Agenda σ → Prop where
  /-- Nothing is left to look up. -/
  | finish {found : RecordSet} {asked : Lookups} {s : σ} :
      Turn ⟨[], found, asked, s, none⟩ ⟨[], found, asked, s, some (.ok found)⟩
  /-- The question on top has less than nothing left. -/
  | overdrawn {q : Question} {budget : Int} {rest : List (Question × Int)} {found : RecordSet}
      {asked : Lookups} {s : σ} (hbudget : budget < 0) :
      Turn ⟨(q, budget) :: rest, found, asked, s, none⟩
        ⟨rest, found, asked, s, some (.error (.tooManyAliases limit))⟩
  | fail {q : Question} {budget : Int} {rest : List (Question × Int)} {found : RecordSet}
      {asked : Lookups} {s t : σ} {e : Failure} (hbudget : 0 ≤ budget)
      (hlook : look q s = some (.error e, t)) :
      Turn ⟨(q, budget) :: rest, found, asked, s, none⟩
        ⟨rest, found, asked ++ [(q, .error e)], t, some (.error e)⟩
  /-- The lookup has found what the question asks for. -/
  | settle {q : Question} {budget : Int} {rest : List (Question × Int)} {found direct : RecordSet}
      {asked : Lookups} {s t : σ} (hbudget : 0 ≤ budget) (hlook : look q s = some (.ok direct, t))
      (hanswered : direct.toList.any (·.answers q) = true) :
      Turn ⟨(q, budget) :: rest, found, asked, s, none⟩
        ⟨rest, found.union direct, asked ++ [(q, .ok direct)], t, none⟩
  /-- The lookup has found nothing but aliases. -/
  | follow {q : Question} {budget : Int} {rest : List (Question × Int)} {found direct : RecordSet}
      {asked : Lookups} {s t : σ} (hbudget : 0 ≤ budget) (hlook : look q s = some (.ok direct, t))
      (hopen : ¬direct.toList.any (·.answers q) = true) :
      Turn ⟨(q, budget) :: rest, found, asked, s, none⟩
        ⟨(successors q direct).map (·, budget - 1) ++ rest, found.union direct,
          asked ++ [(q, .ok direct)], t, none⟩

/-- Any number of turns. -/
abbrev Turns : Agenda σ → Agenda σ → Prop :=
  Relation.ReflTransGen (Turn look limit)

/-- A chase comes to this agenda. -/
abbrev Reached (q : Question) (s : σ) (a : Agenda σ) : Prop :=
  Turns look limit (.start limit q s) a

end Loop

/-- A question is looked up, one of the records returned is an alias, and so on; the lookups are all
among the ones given. -/
inductive Linked (asked : Lookups) (q : Question) : (links : Nat) → Question → Prop where
  | nil : Linked asked q 0 q
  | snoc {n : Nat} {p : Question} {found : RecordSet} {r : Record} {target : String}
      (hlinked : Linked asked q n p) (hasked : (p, .ok found) ∈ asked) (hr : r ∈ found)
      (halias : r.recordType = .cname) (htarget : r.target? = some target) :
      Linked asked q (n + 1) (p.withName target)

variable {look : Look σ} {limit : Int}

/-! ### Every loop ends -/

/-- Whether the loop is still going on, and what the questions on the agenda have left. -/
def Agenda.measure (a : Agenda σ) : Nat × Multiset Nat :=
  (if a.outcome?.isSome then 0 else 1, (a.pending.map fun p => (p.2 + 1).toNat : List Nat))

/-- What a turn puts on the agenda has less left than the question it takes away. -/
theorem Turn.descends {a b : Agenda σ} (h : Turn look limit a b) :
    Prod.Lex (· < ·) (Relation.CutExpand (· < ·)) b.measure a.measure := by
  cases h with
  | finish => exact .left _ _ Nat.zero_lt_one
  | overdrawn => exact .left _ _ Nat.zero_lt_one
  | fail => exact .left _ _ Nat.zero_lt_one
  | @settle q budget rest =>
    refine .right _ ⟨0, (budget + 1).toNat, by simp, ?_⟩
    simp [Multiset.singleton_add, add_comm]
  | @follow q budget rest found direct asked s t hbudget =>
    refine .right _ ⟨((successors q direct).map fun _ => budget.toNat : List Nat),
      (budget + 1).toNat, ?_, ?_⟩
    · intro n hn
      obtain ⟨-, -, rfl⟩ := List.mem_map.1 (Multiset.mem_coe.1 hn)
      omega
    · simp only [List.map_cons, List.map_append, List.map_map, Function.comp_def,
        Int.sub_add_cancel, ← Multiset.coe_add, ← Multiset.cons_coe, ← Multiset.singleton_add]
      ac_rfl

theorem turn_wellFounded (look : Look σ) (limit : Int) :
    WellFounded fun b a => Turn look limit a b :=
  Subrelation.wf Turn.descends
    (InvImage.wf Agenda.measure (wellFounded_lt.prod_lex wellFounded_lt.cutExpand))

/-! ### The loop ends with the result of the chase -/

theorem Turn.unique {a b c : Agenda σ} (hb : Turn look limit a b) (hc : Turn look limit a c) :
    b = c := by
  cases hb <;> cases hc <;> grind

/-- How a chase that works off what is on top of `rest` ends. -/
inductive Arrives (look : Look σ) (limit : Int) (rest : List (Question × Int)) (a : Agenda σ) :
    Option (Except Failure RecordSet × σ) → Prop where
  | stuck {b : Agenda σ} (hturns : Turns look limit a b) (hstuck : b.Stuck look) :
      Arrives look limit rest a none
  | failed {b : Agenda σ} {e : Failure} (hturns : Turns look limit a b)
      (houtcome : b.outcome? = some (.error e)) :
      Arrives look limit rest a (some (.error e, b.state))
  | done {found : RecordSet} {asked : Lookups} {t : σ}
      (hturns : Turns look limit a ⟨rest, found, asked, t, none⟩) :
      Arrives look limit rest a (some (.ok found, t))

theorem Arrives.after {rest : List (Question × Int)} {a b : Agenda σ}
    {r : Option (Except Failure RecordSet × σ)} (hturns : Turns look limit a b)
    (h : Arrives look limit rest b r) : Arrives look limit rest a r := by
  cases h with
  | stuck hmore hstuck => exact .stuck (hturns.trans hmore) hstuck
  | failed hmore houtcome => exact .failed (hturns.trans hmore) houtcome
  | done hmore => exact .done (hturns.trans hmore)

/-- If single questions are worked off, so is a list of them. -/
theorem chaseAll_arrives {budget : Int}
    {chase : Question → RecordSet → σ → Option (Except Failure RecordSet × σ)}
    (hchase : ∀ q rest found asked s, Arrives look limit rest
      ⟨(q, budget) :: rest, found, asked, s, none⟩ (chase q found s))
    (qs : List Question) (rest : List (Question × Int)) (found : RecordSet) (asked : Lookups)
    (s : σ) :
    Arrives look limit rest ⟨qs.map (·, budget) ++ rest, found, asked, s, none⟩
      (chaseAll chase qs found s) := by
  induction qs generalizing found asked s with
  | nil => exact .done .refl
  | cons q qs ih =>
    have hfirst := hchase q (qs.map (·, budget) ++ rest) found asked s
    rw [chaseAll]
    generalize chase q found s = r at hfirst ⊢
    cases hfirst with
    | stuck hturns hstuck => exact .stuck hturns hstuck
    | failed hturns houtcome => exact .failed hturns houtcome
    | done hturns => exact (ih ..).after hturns

theorem chaseFrom_arrives {names : Nat} {budget : Int} (hnames : (budget + 1).toNat = names)
    (q : Question) (rest : List (Question × Int)) (found : RecordSet) (asked : Lookups) (s : σ) :
    Arrives look limit rest ⟨(q, budget) :: rest, found, asked, s, none⟩
      (chaseFrom look limit names q found s) := by
  induction names generalizing budget q rest found asked s with
  | zero => exact .failed (.single (.overdrawn (by omega))) rfl
  | succ names ih =>
    have hbudget : 0 ≤ budget := by omega
    rw [chaseFrom]
    cases hlook : look q s with
    | none => exact .stuck .refl ⟨rfl, q, budget, rest, rfl, hbudget, hlook⟩
    | some looked =>
      obtain ⟨result, t⟩ := looked
      cases result with
      | error e => exact .failed (.single (.fail hbudget hlook)) rfl
      | ok direct =>
        by_cases hanswered : direct.toList.any (·.answers q) = true
        · simp only [if_pos hanswered]
          exact .done (.single (.settle hbudget hlook hanswered))
        · simp only [if_neg hanswered]
          have hless : (budget - 1 + 1).toNat = names := by omega
          exact (chaseAll_arrives (ih hless) ..).after (.single (.follow hbudget hlook hanswered))

/-- There is only one agenda at which the loop can come to a stop. -/
theorem turns_unique {a b c : Agenda σ} (hb : Turns look limit a b) (hc : Turns look limit a c)
    (hbEnd : ∀ d, ¬Turn look limit b d) (hcEnd : ∀ d, ¬Turn look limit c d) : b = c := by
  rcases hb.total_of_right_unique (fun _ _ _ hb hc => hb.unique hc) hc with h | h
  · rcases h.cases_head with rfl | ⟨d, hturn, -⟩
    · rfl
    · exact absurd hturn (hbEnd d)
  · rcases h.cases_head with rfl | ⟨d, hturn, -⟩
    · rfl
    · exact absurd hturn (hcEnd d)

/-- It stops where it has a result, and where it is stuck. -/
theorem not_turn_of_outcome {a b : Agenda σ} {result : Except Failure RecordSet}
    (h : a.outcome? = some result) : ¬Turn look limit a b := by
  intro hturn
  cases hturn <;> cases h

theorem not_turn_of_stuck {a b : Agenda σ} (h : a.Stuck look) : ¬Turn look limit a b := by
  intro hturn
  obtain ⟨-, q, budget, rest, hpending, hbudget, hlook⟩ := h
  cases hturn <;> grind

/-- The loop ends with the result of the chase; it gets stuck if there is none. -/
theorem chase_ends (look : Look σ) (limit : Int) (q : Question) (s : σ) :
    (∃ a result, Reached look limit q s a ∧ a.outcome? = some result ∧
      chase look limit q s = some (result, a.state)) ∨
    ∃ a, Reached look limit q s a ∧ a.Stuck look ∧ chase look limit q s = none := by
  have harrives : Arrives look limit [] (.start limit q s) (chase look limit q s) :=
    chaseFrom_arrives rfl q [] .empty [] s
  generalize chase look limit q s = r at harrives ⊢
  cases harrives with
  | stuck hturns hstuck => exact .inr ⟨_, hturns, hstuck, rfl⟩
  | failed hturns houtcome => exact .inl ⟨_, _, hturns, houtcome, rfl⟩
  | done hturns => exact .inl ⟨_, _, hturns.tail .finish, rfl, rfl⟩

theorem chase_eq_some_iff {q : Question} {s t : σ} {result : Except Failure RecordSet} :
    chase look limit q s = some (result, t) ↔
      ∃ a, Reached look limit q s a ∧ a.outcome? = some result ∧ a.state = t := by
  constructor
  · intro h
    rcases chase_ends look limit q s with ⟨a, result, ha, houtcome, hchase⟩ | ⟨a, -, -, hnone⟩
    · rw [h] at hchase
      cases hchase
      exact ⟨a, ha, houtcome, rfl⟩
    · rw [h] at hnone
      cases hnone
  · intro h
    obtain ⟨a, ha, houtcome, rfl⟩ := h
    rcases chase_ends look limit q s with ⟨b, _, hb, hbOutcome, hchase⟩ | ⟨b, hb, hstuck, -⟩
    · obtain rfl := turns_unique ha hb (fun _ => not_turn_of_outcome houtcome)
        (fun _ => not_turn_of_outcome hbOutcome)
      rw [hchase, Option.some.inj (hbOutcome.symm.trans houtcome)]
    · obtain rfl := turns_unique ha hb (fun _ => not_turn_of_outcome houtcome)
        (fun _ => not_turn_of_stuck hstuck)
      cases houtcome.symm.trans hstuck.1

/-! ### What is looked up -/

/-- Every lookup on the agenda has been made, and has had this result. -/
theorem Reached.look_eq {q : Question} {s : σ} {a : Agenda σ} (h : Reached look limit q s a)
    {p : Question} {result : Except Failure RecordSet} (hp : (p, result) ∈ a.asked) :
    ∃ t t', look p t = some (result, t') := by
  induction h with
  | refl => cases hp
  | tail _ hturn ih =>
    cases hturn with
    | finish => exact ih hp
    | overdrawn => exact ih hp
    | fail _ hlook | settle _ hlook | follow _ hlook =>
      rcases List.mem_append.1 hp with hbefore | hlast
      · exact ih hbefore
      · cases List.mem_singleton.1 hlast
        exact ⟨_, _, hlook⟩

theorem Linked.mono {asked asked' : Lookups} (hsub : asked ⊆ asked') {q p : Question} {n : Nat}
    (h : Linked asked q n p) : Linked asked' q n p := by
  induction h with
  | nil => exact .nil
  | snoc _ hasked hr halias htarget ih => exact .snoc ih (hsub hasked) hr halias htarget

/-- Aliases change nothing but the name. -/
theorem Linked.sameKind {asked : Lookups} {q p : Question} {n : Nat} (h : Linked asked q n p) :
    p.recordType = q.recordType ∧ p.recordClass = q.recordClass := by
  induction h with
  | nil => exact ⟨rfl, rfl⟩
  | snoc _ _ _ _ _ ih => simpa only [Question.withName, Question.ofText] using ih

/-- A question is at the end of a chain of aliases, each of which has taken one unit of the budget.
A link is only added where there is something left. -/
def Due (limit : Int) (q : Question) (asked : Lookups) (p : Question × Int) : Prop :=
  ∃ n : Nat, p.2 = limit - n ∧ (n = 0 ∨ -1 ≤ p.2) ∧ Linked asked q n p.1

theorem Due.mono {asked asked' : Lookups} (hsub : asked ⊆ asked') {q : Question}
    {p : Question × Int} (h : Due limit q asked p) : Due limit q asked' p := by
  obtain ⟨n, hleft, hlow, hlinked⟩ := h
  exact ⟨n, hleft, hlow, hlinked.mono hsub⟩

/-- The questions of the agenda are at the end of a chain that fits the limit, or has one link too
many; those that have been looked up are at the end of one that fits. -/
structure Fits (limit : Int) (q : Question) (a : Agenda σ) : Prop where
  pending : ∀ p ∈ a.pending, Due limit q a.asked p
  asked : ∀ i p result, a.asked[i]? = some (p, result) →
    ∃ n : Nat, n ≤ limit ∧ Linked (a.asked.take i) q n p
  outcome : ∀ k, a.outcome? = some (.error (.tooManyAliases k)) →
    k = limit ∧ (limit < 0 ∨ ∃ p, Linked a.asked q (limit.toNat + 1) p) ∨
      ∃ before p, a.asked = before ++ [(p, .error (.tooManyAliases k))]

theorem Fits.start (limit : Int) (q : Question) (s : σ) : Fits limit q (.start limit q s) where
  pending := by
    intro p h
    cases List.mem_singleton.1 h
    exact ⟨0, (Int.sub_zero _).symm, .inl rfl, .nil⟩
  asked := by
    intro i p result h
    cases h
  outcome := by
    intro k h
    cases h

/-- If the lookups made so far have been within the limit, so are they with one of a question that
has something left. -/
theorem Fits.asked_snoc {q p : Question} {budget : Int} {a : Agenda σ} (h : Fits limit q a)
    (hp : (p, budget) ∈ a.pending) (hbudget : 0 ≤ budget) (result : Except Failure RecordSet)
    (i : Nat) (p' : Question) (result' : Except Failure RecordSet)
    (hi : (a.asked ++ [(p, result)])[i]? = some (p', result')) :
    ∃ n : Nat, n ≤ limit ∧ Linked ((a.asked ++ [(p, result)]).take i) q n p' := by
  rcases Nat.lt_trichotomy i a.asked.length with hlt | rfl | hgt
  · rw [List.getElem?_append_left hlt] at hi
    rw [List.take_append_of_le_length hlt.le]
    exact h.asked i p' result' hi
  · rw [List.getElem?_concat_length] at hi
    cases hi
    obtain ⟨n, hleft, -, hlinked⟩ := h.pending _ hp
    rw [List.take_left]
    exact ⟨n, by omega, hlinked⟩
  · rw [List.getElem?_eq_none (by rw [List.length_append]; exact hgt)] at hi
    cases hi

theorem Fits.turn {q : Question} {a b : Agenda σ} (h : Fits limit q a)
    (hturn : Turn look limit a b) : Fits limit q b := by
  cases hturn with
  | finish => exact ⟨h.pending, h.asked, nofun⟩
  | @overdrawn p budget rest found asked s hbudget =>
    refine ⟨fun p' hp => h.pending p' (List.mem_cons_of_mem _ hp), h.asked, ?_⟩
    intro k hk
    cases hk
    obtain ⟨n, hleft, hlow, hlinked⟩ := h.pending _ List.mem_cons_self
    refine .inl ⟨rfl, ?_⟩
    by_cases hlimit : limit < 0
    · exact .inl hlimit
    · -- the chain has taken the whole budget, and one unit more
      obtain rfl : n = limit.toNat + 1 := by omega
      exact .inr ⟨p, hlinked⟩
  | fail hbudget =>
    refine ⟨?_, h.asked_snoc List.mem_cons_self hbudget _, ?_⟩
    · intro p' hp
      exact (h.pending p' (List.mem_cons_of_mem _ hp)).mono (List.subset_append_left ..)
    · intro k hk
      cases hk
      exact .inr ⟨_, _, rfl⟩
  | settle hbudget =>
    refine ⟨?_, h.asked_snoc List.mem_cons_self hbudget _, nofun⟩
    intro p' hp
    exact (h.pending p' (List.mem_cons_of_mem _ hp)).mono (List.subset_append_left ..)
  | @follow p budget rest found direct asked s t hbudget =>
    refine ⟨?_, h.asked_snoc List.mem_cons_self hbudget _, nofun⟩
    intro p' hp
    rcases List.mem_append.1 hp with hnext | hrest
    · obtain ⟨_, hmem, rfl⟩ := List.mem_map.1 hnext
      obtain ⟨r, hr, target, htarget, rfl⟩ := mem_successors.1 hmem
      obtain ⟨halias, htarget⟩ := target?_eq_some.1 htarget
      obtain ⟨n, hleft, -, hlinked⟩ := h.pending _ List.mem_cons_self
      have hlast : (p, .ok direct) ∈ asked ++ [(p, .ok direct)] :=
        List.mem_append_right _ (List.mem_singleton.2 rfl)
      exact ⟨n + 1, by omega, .inr (by omega),
        .snoc (hlinked.mono (List.subset_append_left ..)) hlast hr halias htarget⟩
    · exact (h.pending p' (List.mem_cons_of_mem _ hrest)).mono (List.subset_append_left ..)

theorem Reached.fits {q : Question} {s : σ} {a : Agenda σ} (h : Reached look limit q s a) :
    Fits limit q a := by
  induction h with
  | refl => exact .start limit q s
  | tail _ hturn ih => exact ih.turn hturn

theorem Due.budget {q : Question} {asked : Lookups} {p : Question × Int} (h : Due limit q asked p) :
    p.2 = limit ∨ -1 ≤ p.2 ∧ p.2 < limit := by
  obtain ⟨n, hleft, hlow, -⟩ := h
  omega

/-- With less than nothing to begin with, no lookup is made. -/
theorem Fits.asked_eq_nil {q : Question} {a : Agenda σ} (h : Fits limit q a) (hlimit : limit < 0) :
    a.asked = [] := by
  cases hasked : a.asked with
  | nil => rfl
  | cons first rest =>
    obtain ⟨n, hn, -⟩ := h.asked 0 first.1 first.2 (by rw [hasked]; rfl)
    omega

/-! ### Main result -/

/-- A chase ends whatever the lookups return. It looks up questions of one type and class only, each
at the end of a chain of at most `limit` aliases that earlier lookups of the same chase have
returned, and it takes nothing off a budget that has nothing left. If it says that there were too
many aliases, the limit is negative and nothing has been looked up, or there has been a chain of one
alias more than the limit, or the last lookup has failed in these words. -/
theorem chase_keeps_to_budget (look : Look σ) (limit : Int) (q : Question) (s : σ) :
    (WellFounded fun b a => Turn look limit a b) ∧
    (∀ result t, chase look limit q s = some (result, t) ↔
      ∃ a, Reached look limit q s a ∧ a.outcome? = some result ∧ a.state = t) ∧
    ((∀ p t, look p t ≠ none) → chase look limit q s ≠ none) ∧
    ∀ a, Reached look limit q s a →
      (∀ p ∈ a.pending, p.2 = limit ∨ -1 ≤ p.2 ∧ p.2 < limit) ∧
      (∀ i p result, a.asked[i]? = some (p, result) →
        (∃ t t', look p t = some (result, t')) ∧
          p.recordType = q.recordType ∧ p.recordClass = q.recordClass ∧
          ∃ n : Nat, n ≤ limit ∧ Linked (a.asked.take i) q n p) ∧
      ∀ k, a.outcome? = some (.error (.tooManyAliases k)) →
        k = limit ∧ limit < 0 ∧ a.asked = [] ∨
        k = limit ∧ 0 ≤ limit ∧ (∃ p, Linked a.asked q (limit.toNat + 1) p) ∨
        ∃ before p, a.asked = before ++ [(p, .error (.tooManyAliases k))] := by
  refine ⟨turn_wellFounded look limit, fun _ _ => chase_eq_some_iff, ?_, ?_⟩
  · intro hlook hnone
    rcases chase_ends look limit q s with ⟨a, result, -, -, hchase⟩ | ⟨a, -, hstuck, -⟩
    · cases hnone.symm.trans hchase
    · obtain ⟨-, p, -, -, -, -, hnot⟩ := hstuck
      exact hlook p a.state hnot
  · intro a ha
    have hfits := Reached.fits ha
    refine ⟨fun p hp => (hfits.pending p hp).budget, ?_, ?_⟩
    · intro i p result hi
      obtain ⟨n, hn, hlinked⟩ := hfits.asked i p result hi
      obtain ⟨htype, hclass⟩ := hlinked.sameKind
      exact ⟨Reached.look_eq ha (List.mem_of_getElem? hi), htype, hclass, n, hn, hlinked⟩
    · intro k hk
      rcases hfits.outcome k hk with ⟨hk, hlimit | hchain⟩ | hlookup
      · exact .inl ⟨hk, hlimit, hfits.asked_eq_nil hlimit⟩
      · by_cases hlimit : limit < 0
        · exact .inl ⟨hk, hlimit, hfits.asked_eq_nil hlimit⟩
        · exact .inr (.inl ⟨hk, Int.not_lt.1 hlimit, hchain⟩)
      · exact .inr (.inr hlookup)

/-- A lookup that fails as a chase of too long a chain does. -/
def overtaxed : Look Unit :=
  fun _ s => some (.error (.tooManyAliases 7), s)

/-- A chase passes the failure on, although there has been no alias at all. -/
theorem fails_without_aliases :
    chase overtaxed 3 (.ofText "www.example.com" .a) () =
      some (.error (.tooManyAliases 7), ()) ∧
    ∀ a, Reached overtaxed 3 (.ofText "www.example.com" .a) () a → ∀ n p,
      ¬Linked a.asked (.ofText "www.example.com" .a) (n + 1) p := by
  refine ⟨rfl, ?_⟩
  intro a ha n p hlinked
  cases hlinked with
  | snoc _ hasked =>
    obtain ⟨t, t', hlook⟩ := Reached.look_eq ha hasked
    cases hlook

end IterativeDns.Alias
