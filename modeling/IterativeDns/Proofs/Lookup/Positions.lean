import IterativeDns.Proofs.Lookup.Ledger

/-!
# The positions of a lookup

A lookup that never comes to an end has no result, but it opens frames and asks servers like any
other. This module says where a lookup stands after each of its actions, whether it will end or
not.

* A `Position` is one point of a lookup: what the innermost frame is about to do, and the frames
  around it that wait for the address of a nameserver. `Step` is one action, `Run` any number.
* From one position there is at most one step (`Step.deterministic`).
* **A lookup has a result if and only if the run ends with this result, and it runs into every
  limit of rounds if and only if the run goes on for ever** (`exists_lookup_iff_run`,
  `forall_lookup_eq_none_iff`).

What is true of every position that can be reached is therefore true of every lookup at each of
its points.
-/

namespace IterativeDns.Resolver

variable {σ : Type} (R : Resolver σ)

/-! ### Positions -/

/-- A frame that waits for the address of a nameserver. -/
structure Waiting where
  question : Question
  /-- What the lookups it waits for have left. -/
  budget : Nat
  frame : Frame
  /-- When the selection of servers began. -/
  before : Snapshot
  nameservers : List Record
  /-- The nameservers that have not been considered. -/
  rest : List Record

/-- One point of a lookup. The frames of `outer` wait, the innermost first. -/
inductive Position (σ : Type) where
  /-- A frame is about to be opened. -/
  | opening (question : Question) (budget : Nat) (outer : List Waiting) (session : Session σ)
  /-- Servers are asked; a new round begins when none is pending. -/
  | asking (question : Question) (budget : Nat) (stage : Stage σ) (outer : List Waiting)
  /-- The selection of servers goes through the nameservers without an address. -/
  | seeking (waiting : Waiting) (outer : List Waiting) (session : Session σ)
  /-- Servers have been selected. -/
  | selected (question : Question) (budget : Nat) (frame : Frame) (servers : List Record)
      (outer : List Waiting) (session : Session σ)
  /-- A frame has ended. -/
  | closed (result : Except Failure RecordSet) (outer : List Waiting) (session : Session σ)

def Position.session : Position σ → Session σ
  | opening _ _ _ s => s
  | asking _ _ stage _ => stage.session
  | seeking _ _ s => s
  | selected _ _ _ _ _ s => s
  | closed _ _ s => s

/-- What the cache has to offer for a question: nameservers, and those of their addresses that are
known. -/
def readServers (q : Question) (s : Session σ) : List Record × List Record × Session σ :=
  let (nameservers, s) := s.bestNameservers (R.now s) q
  let (servers, s) := s.knownAddresses (R.now s) nameservers R.useIpv6
  (nameservers, servers, s)

/-- One action of a lookup. -/
inductive Step : Position σ → Position σ → Prop where
  /-- The cache settles the question of a frame. -/
  | known {q : Question} {budget : Nat} {outer : List Waiting} {s : Session σ}
      (hsettled : q.isSettledBy (s.answers (R.now s) q).1 = true) :
      Step (.opening q budget outer s)
        (.closed (.ok (s.answers (R.now s) q).1) outer (s.answers (R.now s) q).2)
  | unknown {q : Question} {budget : Nat} {outer : List Waiting} {s : Session σ}
      (hopen : ¬q.isSettledBy (s.answers (R.now s) q).1 = true) :
      Step (.opening q budget outer s)
        (.asking q budget
          ⟨[], ⟨(s.answers (R.now s) q).1, .empty⟩, (s.answers (R.now s) q).2⟩ outer)
  /-- Servers are selected by reading the cache alone. -/
  | select {q : Question} {budget : Nat} {outer : List Waiting} {f : Frame} {s t : Session σ}
      {nameservers servers : List Record} (hread : R.readServers q s = (nameservers, servers, t))
      (hready : servers ≠ [] ∨ budget = 0) :
      Step (.asking q budget ⟨[], f, s⟩ outer)
        (.selected q budget f servers outer
          (t.record (.selected q (R.snapshot s) (R.snapshot t) servers)))
  /-- No address is known, and nameservers may be looked up. -/
  | seek {q : Question} {budget : Nat} {outer : List Waiting} {f : Frame} {s t : Session σ}
      {nameservers : List Record} (hread : R.readServers q s = (nameservers, [], t)) :
      Step (.asking q (budget + 1) ⟨[], f, s⟩ outer)
        (.seeking ⟨q, budget, f, R.snapshot s, nameservers, nameservers⟩ outer t)
  /-- No nameserver is left to consider. -/
  | giveUp {w : Waiting} {outer : List Waiting} {s : Session σ} (hrest : w.rest = []) :
      Step (.seeking w outer s)
        (.selected w.question (w.budget + 1) w.frame [] outer
          (s.record (.selected w.question w.before (R.snapshot s) [])))
  /-- What points at no name has no address. -/
  | skip {w : Waiting} {outer : List Waiting} {s : Session σ} {ns : Record} {rest : List Record}
      (hrest : w.rest = ns :: rest) (htarget : ns.target? = none) :
      Step (.seeking w outer s) (.seeking { w with rest } outer s)
  /-- A nameserver within its own zone, or one that had a frame, is passed over. -/
  | pass {w : Waiting} {outer : List Waiting} {s : Session σ} {ns : Record} {rest : List Record}
      {target : String} (hrest : w.rest = ns :: rest) (htarget : ns.target? = some target)
      (hpass : (Name.isWithin target ns.name ||
        s.hasAttempted (.ofText target .a w.question.recordClass)) = true) :
      Step (.seeking w outer s) (.seeking { w with rest } outer s)
  | lookUp {w : Waiting} {outer : List Waiting} {s : Session σ} {ns : Record} {rest : List Record}
      {target : String} (hrest : w.rest = ns :: rest) (htarget : ns.target? = some target)
      (hnew : (Name.isWithin target ns.name ||
        s.hasAttempted (.ofText target .a w.question.recordClass)) = false) :
      Step (.seeking w outer s)
        (.opening (.ofText target .a w.question.recordClass) w.budget ({ w with rest } :: outer)
          (s.attempt (.ofText target .a w.question.recordClass)))
  /-- The lookup of an address has failed. -/
  | failed {e : Failure} {w : Waiting} {outer : List Waiting} {s : Session σ} :
      Step (.closed (.error e) (w :: outer) s) (.seeking w outer s)
  /-- The lookup of an address has made none known. -/
  | useless {found : RecordSet} {w : Waiting} {outer : List Waiting} {s t : Session σ}
      (hread : s.knownAddresses (R.now s) w.nameservers R.useIpv6 = ([], t)) :
      Step (.closed (.ok found) (w :: outer) s) (.seeking w outer t)
  | found {found : RecordSet} {w : Waiting} {outer : List Waiting} {s t : Session σ}
      {servers : List Record}
      (hread : s.knownAddresses (R.now s) w.nameservers R.useIpv6 = (servers, t))
      (hsome : servers ≠ []) :
      Step (.closed (.ok found) (w :: outer) s)
        (.selected w.question (w.budget + 1) w.frame servers outer
          (t.record (.selected w.question w.before (R.snapshot t) servers)))
  /-- Nobody is left to ask. -/
  | exhausted {q : Question} {budget : Nat} {f : Frame} {servers : List Record}
      {outer : List Waiting} {s : Session σ} (htried : servers.all f.tried.contains = true) :
      Step (.selected q budget f servers outer s)
        (.closed (.ok (f.answers.union (s.answers (R.now s) q).1)) outer (s.answers (R.now s) q).2)
  | round {q : Question} {budget : Nat} {f : Frame} {servers : List Record}
      {outer : List Waiting} {s : Session σ} (huntried : ¬servers.all f.tried.contains = true) :
      Step (.selected q budget f servers outer s) (.asking q budget ⟨servers, f, s⟩ outer)
  /-- A server is taken up, and the frame goes on. -/
  | ask {q : Question} {budget : Nat} {outer : List Waiting} {f f' : Frame} {s t : Session σ}
      {server : Record} {servers : List Record}
      (hask : R.askServers q [server] f s = (.goesOn f', t)) :
      Step (.asking q budget ⟨server :: servers, f, s⟩ outer)
        (.asking q budget ⟨servers, f', t⟩ outer)
  | finish {q : Question} {budget : Nat} {outer : List Waiting} {f : Frame} {s t : Session σ}
      {server : Record} {servers : List Record} {result : Except Failure RecordSet}
      (hask : R.askServers q [server] f s = (.finished result, t)) :
      Step (.asking q budget ⟨server :: servers, f, s⟩ outer) (.closed result outer t)

/-- Any number of steps. -/
abbrev Run : Position σ → Position σ → Prop :=
  Relation.ReflTransGen R.Step

/-- Where a lookup begins: the first frame is about to be opened. -/
def start (q : Question) (s : Session σ) : Position σ :=
  .opening q R.budget [] { s with attempted := [q] }

variable {R}

/-! ### Determinism -/

/-- Where two actions start alike, their conditions exclude each other. -/
theorem Step.deterministic {a b c : Position σ} (h : R.Step a b) (h' : R.Step a c) : b = c := by
  cases h <;> cases h' <;> simp_all

theorem not_step_closed {result : Except Failure RecordSet} {s : Session σ} {a : Position σ} :
    ¬R.Step (.closed result [] s) a := by
  intro h
  cases h

/-- A lookup that ends passes through every position that can be reached. -/
theorem Run.closed_of_run {a b : Position σ} {result : Except Failure RecordSet} {s : Session σ}
    (hend : R.Run a (.closed result [] s)) (h : R.Run a b) : R.Run b (.closed result [] s) := by
  induction h with
  | refl => exact hend
  | tail _ hstep ih =>
    rcases ih.cases_head with rfl | ⟨c, hstep', hrest⟩
    · exact absurd hstep not_step_closed
    · rwa [hstep.deterministic hstep']

/-- A run has one end at most. -/
theorem Run.closed_inj {a : Position σ} {result result' : Except Failure RecordSet}
    {s s' : Session σ} (h : R.Run a (.closed result [] s)) (h' : R.Run a (.closed result' [] s')) :
    (result, s) = (result', s') := by
  rcases (h.closed_of_run h').cases_head with heq | ⟨c, hstep, -⟩
  · cases heq
    rfl
  · exact absurd hstep not_step_closed

/-- At least so many steps can be taken. -/
inductive Lasts (R : Resolver σ) : Nat → Position σ → Prop where
  | zero {a : Position σ} : Lasts R 0 a
  | step {n : Nat} {a b : Position σ} (hstep : R.Step a b) (hrest : Lasts R n b) :
      Lasts R (n + 1) a

theorem Lasts.mono {n m : Nat} {a : Position σ} (h : R.Lasts n a) (hle : m ≤ n) :
    R.Lasts m a := by
  induction h generalizing m with
  | zero =>
    rw [Nat.le_zero.1 hle]
    exact .zero
  | step hstep _ ih =>
    cases m with
    | zero => exact .zero
    | succ m => exact .step hstep (ih (Nat.le_of_succ_le_succ hle))

theorem Lasts.of_run {n : Nat} {a b : Position σ} (hrun : R.Run a b) (h : R.Lasts n b) :
    R.Lasts n a := by
  induction hrun using Relation.ReflTransGen.head_induction_on with
  | refl => exact h
  | head hstep _ ih => exact (Lasts.step hstep ih).mono (Nat.le_succ n)

/-- A run that ends does not go on for ever. -/
theorem Run.exists_not_lasts {a : Position σ} {result : Except Failure RecordSet} {s : Session σ}
    (hend : R.Run a (.closed result [] s)) : ∃ n, ¬R.Lasts n a := by
  induction hend using Relation.ReflTransGen.head_induction_on with
  | refl =>
    refine ⟨1, ?_⟩
    intro h
    cases h with
    | step hstep _ => exact not_step_closed hstep
  | head hstep _ ih =>
    obtain ⟨n, hn⟩ := ih
    refine ⟨n + 1, ?_⟩
    intro h
    cases h with
    | step hstep' hrest => exact hn (hstep.deterministic hstep' ▸ hrest)

/-! ### The positions of single functions

Each function of a lookup is told by the steps it takes. One that has no result has run into the
limit of rounds somewhere, and has taken a step at least for every round. -/

/-- The run comes to a position or, if there is none, lasts for some number of steps. -/
def Comes (R : Resolver σ) (n : Nat) (a : Position σ) : Option (Position σ) → Prop
  | some b => R.Run a b
  | none => R.Lasts n a

theorem Comes.of_run {n : Nat} {a b : Position σ} {c? : Option (Position σ)} (hrun : R.Run a b)
    (h : R.Comes n b c?) : R.Comes n a c? := by
  cases c? with
  | some c => exact hrun.trans h
  | none => exact Lasts.of_run hrun h

theorem Comes.head {n : Nat} {a b : Position σ} {c? : Option (Position σ)} (hstep : R.Step a b)
    (h : R.Comes n b c?) : R.Comes n a c? :=
  .of_run (.single hstep) h

theorem askServers_cons (q : Question) (server : Record) (servers : List Record) (f : Frame)
    (s : Session σ) :
    R.askServers q (server :: servers) f s =
      match R.askServers q [server] f s with
      | (.goesOn f', t) => R.askServers q servers f' t
      | (.finished result, t) => (.finished result, t) := by
  simp only [askServers]
  split
  · rfl
  · split
    · rfl
    · split
      · rfl
      · rfl
      · split <;> rfl

/-- Where asking the servers of a round leads to. -/
def RoundEnd.position (q : Question) (budget : Nat) (outer : List Waiting) :
    RoundEnd × Session σ → Position σ
  | (.goesOn f, t) => .asking q budget ⟨[], f, t⟩ outer
  | (.finished result, t) => .closed result outer t

theorem run_askServers (q : Question) (budget : Nat) (outer : List Waiting)
    (servers : List Record) (f : Frame) (s : Session σ) :
    R.Run (.asking q budget ⟨servers, f, s⟩ outer)
      (RoundEnd.position q budget outer (R.askServers q servers f s)) := by
  induction servers generalizing f s with
  | nil => exact .refl
  | cons server servers ih =>
    rw [askServers_cons]
    cases hask : R.askServers q [server] f s with
    | mk ending t =>
      cases ending with
      | goesOn f' => exact .head (.ask hask) (ih f' t)
      | finished result => exact .single (.finish hask)

/-- The result of a frame as a position. -/
def closedWith (outer : List Waiting) (r : Except Failure RecordSet × Session σ) : Position σ :=
  .closed r.1 outer r.2

/-- The selection of some servers as a position. -/
def Waiting.selected (R : Resolver σ) (w : Waiting) (outer : List Waiting)
    (r : List Record × Session σ) : Position σ :=
  .selected w.question (w.budget + 1) w.frame r.1 outer
    (r.2.record (.selected w.question w.before (R.snapshot r.2) r.1))

theorem comes_findAddresses {n : Nat} {w : Waiting}
    (hresolve : ∀ q s outer,
      R.Comes n (.opening q w.budget outer s) ((R.resolve w.budget q s).map (closedWith outer)))
    (outer : List Waiting) (rest : List Record) (s : Session σ) :
    R.Comes n (.seeking { w with rest } outer s)
      ((R.findAddresses (R.resolve w.budget) w.question.recordClass w.nameservers rest s).map
        (w.selected R outer)) := by
  induction rest generalizing s with
  | nil => exact .single (.giveUp rfl)
  | cons ns rest ih =>
    rw [findAddresses]
    cases htarget : ns.target? with
    | none => exact (ih s).head (.skip rfl htarget)
    | some target =>
      cases hpass : Name.isWithin target ns.name ||
          s.hasAttempted (.ofText target .a w.question.recordClass) with
      | true =>
        simp only [hpass, if_true]
        exact (ih s).head (.pass rfl htarget hpass)
      | false =>
        have hframe := hresolve (.ofText target .a w.question.recordClass)
          (s.attempt (.ofText target .a w.question.recordClass)) ({ w with rest } :: outer)
        simp only [hpass, Bool.false_eq_true, if_false]
        refine .head (.lookUp rfl htarget hpass) ?_
        cases hres : R.resolve w.budget (.ofText target .a w.question.recordClass)
            (s.attempt (.ofText target .a w.question.recordClass)) with
        | none =>
          rw [hres] at hframe
          exact hframe
        | some r =>
          rw [hres] at hframe
          refine .of_run hframe ?_
          obtain ⟨result, t⟩ := r
          cases result with
          | error e => exact (ih t).head .failed
          | ok found =>
            cases hread : t.knownAddresses (R.now t) w.nameservers R.useIpv6 with
            | mk usable u =>
              cases usable with
              | nil =>
                simp only [hread, List.isEmpty_nil, if_true]
                exact (ih u).head (.useless hread)
              | cons server servers =>
                simp only [hread, List.isEmpty_cons, Bool.false_eq_true, if_false]
                exact Relation.ReflTransGen.single (.found hread (List.cons_ne_nil _ _))

/-- Selecting servers starts from what the cache has to offer. -/
theorem selectServers_of_read {q : Question} {s t : Session σ} {nameservers servers : List Record}
    (hread : R.readServers q s = (nameservers, servers, t)) (resolve? : Option (Look (Session σ))) :
    R.selectServers resolve? q s =
      (if servers.isEmpty then
        match resolve? with
        | some resolve => R.findAddresses resolve q.recordClass nameservers nameservers t
        | none => some ([], t)
      else some (servers, t)).map fun r =>
        (r.1, r.2.record (.selected q (R.snapshot s) (R.snapshot r.2) r.1)) := by
  cases hbest : s.bestNameservers (R.now s) q with
  | mk best u =>
    cases hknown : u.knownAddresses (R.now u) best R.useIpv6 with
    | mk usable v =>
      simp only [readServers, hbest, hknown, Prod.mk.injEq] at hread
      obtain ⟨rfl, rfl, rfl⟩ := hread
      simp only [selectServers, hbest, hknown]
      cases usable with
      | cons server servers => rfl
      | nil =>
        cases resolve? with
        | none => rfl
        | some resolve =>
          simp only [List.isEmpty_nil, if_true]
          cases R.findAddresses resolve q.recordClass best best v <;> rfl

/-- The lookups of addresses that a frame with some budget makes. -/
def ComesNested (R : Resolver σ) (n budget : Nat) : Prop :=
  ∀ nested, budget = nested + 1 → ∀ q s outer,
    R.Comes n (.opening q nested outer s) ((R.resolve nested q s).map (closedWith outer))

theorem comes_selectServers {n budget : Nat} (hnested : R.ComesNested n budget) (q : Question)
    (outer : List Waiting) (f : Frame) (s : Session σ) :
    R.Comes n (.asking q budget ⟨[], f, s⟩ outer)
      ((R.selectServers (R.nested? budget) q s).map fun r =>
        .selected q budget f r.1 outer r.2) := by
  cases hread : R.readServers q s with
  | mk nameservers read =>
    obtain ⟨servers, t⟩ := read
    rw [selectServers_of_read hread]
    cases servers with
    | cons server servers =>
      exact Relation.ReflTransGen.single (.select hread (.inl (List.cons_ne_nil _ _)))
    | nil =>
      cases budget with
      | zero => exact Relation.ReflTransGen.single (.select hread (.inr rfl))
      | succ budget =>
        refine .head (.seek hread) ?_
        have h := comes_findAddresses (w := ⟨q, budget, f, R.snapshot s, nameservers, nameservers⟩)
          (hnested budget rfl) outer nameservers t
        rwa [Option.map_map]

theorem comes_rounds {n budget : Nat} (hnested : R.ComesNested n budget) (q : Question)
    (outer : List Waiting) {limit : Nat} (hlimit : limit ≤ n) (f : Frame) (s : Session σ) :
    R.Comes limit (.asking q budget ⟨[], f, s⟩ outer)
      ((R.rounds (R.selectServers (R.nested? budget) q) q limit f s).map (closedWith outer)) := by
  induction limit generalizing f s with
  | zero => exact .zero
  | succ limit ih =>
    have hselect := comes_selectServers hnested q outer f s
    rw [rounds]
    cases hsel : R.selectServers (R.nested? budget) q s with
    | none =>
      rw [hsel] at hselect
      exact hselect.mono hlimit
    | some selected =>
      obtain ⟨servers, t⟩ := selected
      rw [hsel] at hselect
      by_cases htried : servers.all f.tried.contains = true
      · simp only [htried, if_true]
        exact hselect.tail (.exhausted htried)
      · simp only [htried, Bool.false_eq_true, if_false]
        have hround := run_askServers (R := R) q budget outer servers f t
        cases hask : R.askServers q servers f t with
        | mk ending u =>
          rw [hask] at hround
          cases ending with
          | finished result => exact (hselect.tail (.round htried)).trans hround
          | goesOn f' =>
            have hrest := ih (Nat.le_of_succ_le hlimit) f' u
            simp only
            cases hrounds : R.rounds (R.selectServers (R.nested? budget) q) q limit f' u with
            | some r =>
              rw [hrounds] at hrest
              exact ((hselect.tail (.round htried)).trans hround).trans hrest
            | none =>
              rw [hrounds] at hrest
              -- the step that begins the round is the one that counts
              exact Lasts.of_run hselect (.step (.round htried) (Lasts.of_run hround hrest))

theorem comes_frame {budget : Nat} (hnested : R.ComesNested R.maxRounds budget) (q : Question)
    (outer : List Waiting) (s : Session σ) :
    R.Comes R.maxRounds (.opening q budget outer s)
      ((R.resolve budget q s).map (closedWith outer)) := by
  rw [resolve_eq_frame, frame]
  by_cases hsettled : q.isSettledBy (s.answers (R.now s) q).1 = true
  · simp only [hsettled, if_true]
    exact Relation.ReflTransGen.single (.known hsettled)
  · simp only [hsettled, Bool.false_eq_true, if_false]
    exact (comes_rounds hnested q outer (Nat.le_refl _) _ _).head (.unknown hsettled)

/-- A frame is the run from where it is opened to where it is closed. -/
theorem comes_resolve (R : Resolver σ) (budget : Nat) (q : Question) (outer : List Waiting)
    (s : Session σ) :
    R.Comes R.maxRounds (.opening q budget outer s)
      ((R.resolve budget q s).map (closedWith outer)) := by
  induction budget generalizing q outer s with
  | zero =>
    refine comes_frame ?_ q outer s
    intro nested hbudget
    cases hbudget
  | succ budget ih =>
    refine comes_frame ?_ q outer s
    intro nested hbudget p u outer
    cases hbudget
    exact ih p outer u

/-! ### Main results -/

/-- The resolver with another limit of rounds. -/
def withRounds (R : Resolver σ) (limit : Nat) : Resolver σ :=
  { R with maxRounds := limit }

/-- No step depends on the limit. -/
theorem Step.withRounds {a b : Position σ} (h : R.Step a b) (limit : Nat) :
    (R.withRounds limit).Step a b := by
  cases h
  case pass hrest htarget hpass => exact .pass hrest htarget hpass
  all_goals constructor <;> assumption

theorem step_withRounds (R : Resolver σ) (limit : Nat) : (R.withRounds limit).Step = R.Step := by
  funext a b
  exact propext ⟨fun h => h.withRounds R.maxRounds, fun h => h.withRounds limit⟩

theorem comes_lookup (R : Resolver σ) (q : Question) (s : Session σ) :
    R.Comes R.maxRounds (R.start q s) ((R.lookup q s).map (closedWith [])) :=
  comes_resolve R R.budget q [] _

/-- A lookup runs through the positions. -/
theorem run_of_lookup {q : Question} {s t : Session σ} {result : Except Failure RecordSet}
    (h : R.lookup q s = some (result, t)) : R.Run (R.start q s) (.closed result [] t) := by
  have hcomes := comes_lookup R q s
  rwa [h] at hcomes

theorem lasts_withRounds {limit n : Nat} {a : Position σ} :
    (R.withRounds limit).Lasts n a ↔ R.Lasts n a := by
  constructor
  · intro h
    induction h with
    | zero => exact .zero
    | step hstep _ ih => exact .step (step_withRounds R limit ▸ hstep) ih
  · intro h
    induction h with
    | zero => exact .zero
    | step hstep _ ih => exact .step (hstep.withRounds limit) ih

theorem run_withRounds (R : Resolver σ) (limit : Nat) : (R.withRounds limit).Run = R.Run := by
  rw [Run, step_withRounds]

/-- A lookup that has no result within a limit of rounds takes more steps than that. -/
theorem lasts_of_lookup_eq_none {limit : Nat} {q : Question} {s : Session σ}
    (h : (R.withRounds limit).lookup q s = none) : R.Lasts limit (R.start q s) := by
  have hcomes := comes_lookup (R.withRounds limit) q s
  rw [h] at hcomes
  exact lasts_withRounds.1 hcomes

/-- A run that ends is that of the lookup with every limit of rounds that is large enough. -/
theorem Run.exists_forall_lookup {q : Question} {s t : Session σ}
    {result : Except Failure RecordSet} (hend : R.Run (R.start q s) (.closed result [] t)) :
    ∃ enough, ∀ limit, enough ≤ limit → (R.withRounds limit).lookup q s = some (result, t) := by
  obtain ⟨n, hn⟩ := hend.exists_not_lasts
  refine ⟨n, ?_⟩
  intro limit hlimit
  cases h : (R.withRounds limit).lookup q s with
  | none => exact absurd ((lasts_of_lookup_eq_none h).mono hlimit) hn
  | some r =>
    have hend' : R.Run (R.start q s) (.closed r.1 [] r.2) := by
      rw [← run_withRounds R limit]
      exact run_of_lookup h
    rw [hend.closed_inj hend']

/-- A lookup has a result, for some limit of rounds, exactly if its run ends with it. -/
theorem exists_lookup_iff_run {q : Question} {s t : Session σ}
    {result : Except Failure RecordSet} :
    (∃ limit, (R.withRounds limit).lookup q s = some (result, t)) ↔
      R.Run (R.start q s) (.closed result [] t) := by
  constructor
  · intro h
    obtain ⟨limit, h⟩ := h
    rw [← run_withRounds R limit]
    exact run_of_lookup h
  · intro hend
    obtain ⟨enough, hlookup⟩ := Run.exists_forall_lookup hend
    exact ⟨enough, hlookup enough (Nat.le_refl enough)⟩

/-- A lookup runs into every limit exactly if its run goes on for ever. -/
theorem forall_lookup_eq_none_iff {q : Question} {s : Session σ} :
    (∀ limit, (R.withRounds limit).lookup q s = none) ↔ ∀ n, R.Lasts n (R.start q s) := by
  constructor
  · intro h n
    exact lasts_of_lookup_eq_none (h n)
  · intro h limit
    cases hlookup : (R.withRounds limit).lookup q s with
    | none => rfl
    | some r =>
      obtain ⟨n, hn⟩ := (exists_lookup_iff_run.1 ⟨limit, hlookup⟩).exists_not_lasts
      exact absurd (h n) hn

end IterativeDns.Resolver
