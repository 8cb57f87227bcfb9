import IterativeDns.Proofs.Lookup.Positions

/-!
# Open frames

The frames that are open at a position of a lookup, and what a step does to them.

* A step leaves the open frames as they are, closes the innermost one, opens one more within it,
  or lets it take up a server (`Turn`, `Step.turn`).
* `Orderly` is what every step preserves: each frame has one unit of budget less than the one
  around it, the frames are for different questions, and whatever has been asked for the question
  of a frame has been noted by this frame.

So no question has two frames in one lookup (`Run.not_sameAs_of_opening`), and no server is asked
twice for one question, since the frame that notes the servers is the only one of its question.
-/

namespace IterativeDns

/-! ### Sessions -/

namespace LookupStep

/-- The question a step is about. -/
def question : LookupStep → Question
  | selected q _ _ _ => q
  | asked q _ _ => q

/-- What was sent: the question, letter case aside, and the server's address record. -/
def exchange? : LookupStep →
    Option ((List Char × RecordType × RecordClass) ×
      ((List Char × RecordType × RecordClass) × Rdata))
  | selected .. => none
  | asked q server _ => some (q.key, server.identity)

theorem exchange?_eq_some {step : LookupStep}
    {e : (List Char × RecordType × RecordClass) ×
      ((List Char × RecordType × RecordClass) × Rdata)} :
    step.exchange? = some e ↔
      ∃ q server outcome, step = asked q server outcome ∧ e = (q.key, server.identity) := by
  cases step with
  | selected => simp [exchange?]
  | asked q server outcome =>
    constructor
    · intro h
      exact ⟨q, server, outcome, rfl, (Option.some.inj h).symm⟩
    · rintro ⟨_, _, _, h, rfl⟩
      cases h
      rfl

end LookupStep

namespace Session

variable {σ : Type} {C : Client σ}

theorem hasAttempted_congr (s : Session σ) {p q : Question} (h : p.key = q.key) :
    s.hasAttempted p = s.hasAttempted q := by
  simp only [hasAttempted, Question.sameAs, h]

/-- Two questions only one of which has a frame are not the same. -/
theorem key_ne_of_hasAttempted {s : Session σ} {p q : Question} (hp : s.hasAttempted p = true)
    (hq : s.hasAttempted q = false) : p.key ≠ q.key := by
  intro hkey
  rw [s.hasAttempted_congr hkey, hq] at hp
  cases hp

theorem hasAttempted_of_attempted_eq {s t : Session σ} (h : t.attempted = s.attempted)
    (p : Question) : t.hasAttempted p = s.hasAttempted p := by
  rw [hasAttempted, hasAttempted, h]

/-- How a session gets from one state to another with some steps, whichever frames take them. -/
structure Follows (C : Client σ) (s : Session σ) (steps : List LookupStep) (t : Session σ) :
    Prop where
  history : t.history = s.history ++ steps
  served : C.Serves s.client steps t.client
  cache : t.cache.SameButReads (s.cache.addAll (steps.flatMap LookupStep.told))

theorem Evolves.follows {own? : Option Question} {s t : Session σ} {steps : List LookupStep}
    (h : Evolves C own? s steps t) : Follows C s steps t :=
  ⟨h.history, h.served, h.cache⟩

/-- Reading the cache takes no step. -/
theorem Follows.read (s : Session σ) {c : Cache} (hc : c.SameButReads s.cache) :
    Follows C s [] { s with cache := c } :=
  ⟨(List.append_nil _).symm, rfl, hc⟩

theorem Follows.refl (s : Session σ) : Follows C s [] s :=
  .read s (.refl s.cache)

theorem Follows.trans {s t u : Session σ} {steps later : List LookupStep}
    (h : Follows C s steps t) (h' : Follows C t later u) : Follows C s (steps ++ later) u where
  history := by rw [h'.history, h.history, List.append_assoc]
  served := h.served.append h'.served
  cache := by
    rw [List.flatMap_append, Cache.addAll_append]
    exact h'.cache.trans (h.cache.addAll _)

theorem Follows.wellFormed {s t : Session σ} {steps : List LookupStep} (h : Follows C s steps t)
    (hs : s.cache.WellFormed) : t.cache.WellFormed :=
  (hs.addAll _).congr h.cache.entries

/-- The note of a selection in the history is a step that asks nobody. -/
theorem Follows.note {s t : Session σ} (h : Follows C s [] t) (q : Question)
    (before after : Snapshot) (servers : List Record) :
    Follows C s [.selected q before after servers]
      (t.record (.selected q before after servers)) where
  history := by rw [record, h.history, List.append_nil]
  served := h.served
  cache := h.cache

end Session

namespace Resolver

variable {σ : Type} {R : Resolver σ}

open Session (Follows)

theorem readServers_follows {q : Question} {s t : Session σ} {nameservers servers : List Record}
    (h : R.readServers q s = (nameservers, servers, t)) :
    s.Follows R.client [] t ∧ t.attempted = s.attempted := by
  cases h
  have hbest : s.Follows R.client [] (s.bestNameservers (R.now s) q).2 :=
    .read s (Cache.sameButReads_firstDelegation ..)
  exact ⟨hbest.trans (.read _ (Cache.sameButReads_collectAddresses ..)), rfl⟩

theorem knownAddresses_follows {s t : Session σ} {nameservers servers : List Record}
    (h : s.knownAddresses (R.now s) nameservers R.useIpv6 = (servers, t)) :
    s.Follows R.client [] t ∧ t.attempted = s.attempted := by
  cases h
  exact ⟨.read s (Cache.sameButReads_collectAddresses ..), rfl⟩

theorem attempted_askServer (q : Question) (server : Record) (address : Address)
    (s : Session σ) : (R.askServer q server address s).2.attempted = s.attempted := by
  rw [askServer_eq]
  obtain ⟨trace, h⟩ := ((R.exchange q address s).2.record (R.stepOf q server address s)).digest_eq
    address (R.client.ask q address s.client).1.outcome
  rw [h]
  rfl

/-- A server that is taken up is noted as tried. It is asked if it was not noted before and has an
address, and if that fails, so does the frame. -/
theorem askServers_singleton {q : Question} {server : Record} {f : Frame} {s t : Session σ}
    {ending : RoundEnd} (h : R.askServers q [server] f s = (ending, t)) :
    ∃ steps, s.Follows R.client steps t ∧ t.attempted = s.attempted ∧
      (steps = [] ∨ f.tried.contains server = false ∧
        ∃ outcome, steps = [.asked q server outcome]) ∧
      (∀ f', ending = .goesOn f' → f'.tried = f.tried.insert server) ∧
      ∀ step ∈ steps, ∀ e, step.failure? q = some e → ending = .finished (.error e) := by
  cases haddress : server.address? with
  | none =>
    rw [askServers_of_address?_eq_none haddress] at h
    cases h
    refine ⟨[], .refl s, rfl, .inl rfl, ?_, List.forall_mem_nil _⟩
    rintro f' ⟨⟩
    rfl
  | some address =>
    cases htried : f.tried.contains server with
    | true =>
      rw [askServers_of_tried htried] at h
      cases h
      refine ⟨[], .refl s, rfl, .inl rfl, ?_, List.forall_mem_nil _⟩
      rintro f' ⟨⟩
      exact congrArg Frame.tried (Frame.mark_of_tried htried).symm
    | false =>
      have hattempted := attempted_askServer (R := R) q server address s
      rw [askServers_of_untried htried haddress] at h
      cases hask : R.askServer q server address s with
      | mk gain u =>
        rw [hask] at h hattempted
        obtain ⟨hasked, hexplain⟩ := askServer_evolves haddress hask
        obtain ⟨ht, hnoted⟩ := afterAsking_eq h
        refine ⟨[R.stepOf q server address s], ?_, ?_, .inr ⟨rfl, _, rfl⟩, hnoted, ?_⟩
        · rcases ht with rfl | rfl
          · exact hasked.follows
          · exact (hasked.answers _ q).follows
        · rcases ht with rfl | rfl <;> exact hattempted
        · intro step hstep e hfails
          obtain rfl := (hexplain.eq_error_iff e).2 ⟨step, hstep, hfails⟩
          exact (congrArg Prod.fst h).symm

/-! ### What a step does to the open frames -/

/-- A frame that has been opened and has not been closed. -/
structure OpenFrame where
  question : Question
  budget : Nat
  tried : RecordSet

def Waiting.openFrame (w : Waiting) : OpenFrame :=
  ⟨w.question, w.budget + 1, w.frame.tried⟩

/-- The frames that wait at a position, the innermost first. -/
def Position.waiting : Position σ → List Waiting
  | opening _ _ outer _ => outer
  | asking _ _ _ outer => outer
  | seeking w outer _ => w :: outer
  | selected _ _ _ _ outer _ => outer
  | closed _ outer _ => outer

/-- The open frames, the innermost first. -/
def Position.frames : Position σ → List OpenFrame
  | opening q budget outer _ => ⟨q, budget, .empty⟩ :: outer.map Waiting.openFrame
  | asking q budget stage outer => ⟨q, budget, stage.frame.tried⟩ :: outer.map Waiting.openFrame
  | seeking w outer _ => w.openFrame :: outer.map Waiting.openFrame
  | selected q budget f _ outer _ => ⟨q, budget, f.tried⟩ :: outer.map Waiting.openFrame
  | closed _ outer _ => outer.map Waiting.openFrame

/-- The frame after it has taken up a server. -/
def OpenFrame.mark (f : OpenFrame) (server : Record) : OpenFrame :=
  { f with tried := f.tried.insert server }

/-- What a step can do to the open frames, with the steps it adds to the history. -/
inductive Turn (a b : Position σ) (steps : List LookupStep) : Prop where
  /-- Nobody is asked. The innermost frame may be closed. -/
  | quiet (hframes : b.frames <:+ a.frames)
      (hsteps : ∀ step ∈ steps, step.asked? = none ∧
        ∃ f, a.frames.head? = some f ∧ step.question = f.question)
      (hattempted : b.session.attempted = a.session.attempted)
  /-- A frame is opened for the address of one of the nameservers that are considered. -/
  | opens {w : Waiting} {fs : List OpenFrame} {ns : Record} {target : String} {q : Question}
      (hsteps : steps = []) (hwaiting : w ∈ a.waiting) (hframe : a.frames = w.openFrame :: fs)
      (hns : ns ∈ w.rest) (htarget : ns.target? = some target)
      (hq : q = .ofText target .a w.question.recordClass)
      (hnew : a.session.hasAttempted q = false)
      (hframes : b.frames = ⟨q, w.budget, .empty⟩ :: w.openFrame :: fs)
      (hattempted : b.session.attempted = (a.session.attempt q).attempted)
  /-- The innermost frame takes up a server, and may be closed then. It fails if the exchange
  does. -/
  | takesUp {f : OpenFrame} {fs : List OpenFrame} {server : Record} (hframe : a.frames = f :: fs)
      (hframes : b.frames <:+ f.mark server :: fs)
      (hsteps : steps = [] ∨ f.tried.contains server = false ∧
        ∃ outcome, steps = [.asked f.question server outcome])
      (hattempted : b.session.attempted = a.session.attempted)
      (hfails : ∀ step ∈ steps, ∀ e, step.failure? f.question = some e →
        ∃ outer, b = .closed (.error e) outer b.session ∧ fs = outer.map Waiting.openFrame)

/-- The steps are those of the innermost frame. -/
theorem Turn.own {a b : Position σ} {steps : List LookupStep} (h : Turn a b steps) :
    ∀ step ∈ steps, ∃ f, a.frames.head? = some f ∧ step.question = f.question := by
  cases h with
  | quiet _ hsteps _ => exact fun step hstep => (hsteps step hstep).2
  | opens hsteps =>
    subst hsteps
    exact List.forall_mem_nil _
  | takesUp hframe _ hsteps _ _ =>
    rcases hsteps with rfl | ⟨-, outcome, rfl⟩
    · exact List.forall_mem_nil _
    · rw [hframe]
      simp [LookupStep.question]

theorem Turn.of_read {a b : Position σ} (hframes : b.frames <:+ a.frames)
    (hattempted : b.session.attempted = a.session.attempted) : Turn a b [] :=
  .quiet hframes (List.forall_mem_nil _) hattempted

theorem Turn.of_selected {a b : Position σ} {q : Question} {before after : Snapshot}
    {servers : List Record} {f : OpenFrame} {fs : List OpenFrame} (ha : a.frames = f :: fs)
    (hb : b.frames = f :: fs) (hq : q = f.question)
    (hattempted : b.session.attempted = a.session.attempted) :
    Turn a b [.selected q before after servers] := by
  refine .quiet (hb.trans ha.symm ▸ List.suffix_refl _) ?_ hattempted
  rw [ha]
  simp [LookupStep.asked?, LookupStep.question, hq]

theorem answers_follows (s : Session σ) (q : Question) :
    s.Follows R.client [] (s.answers (R.now s) q).2 :=
  .read s (s.cache.sameButReads_answers (R.now s) q)

theorem Step.turn {a b : Position σ} (h : R.Step a b) :
    ∃ steps, a.session.Follows R.client steps b.session ∧ Turn a b steps := by
  cases h with
  | known _ => exact ⟨[], answers_follows _ _, .of_read (List.suffix_cons _ _) rfl⟩
  | unknown _ => exact ⟨[], answers_follows _ _, .of_read (List.suffix_refl _) rfl⟩
  | select hread _ =>
    obtain ⟨hfollows, hattempted⟩ := readServers_follows hread
    exact ⟨_, hfollows.note _ _ _ _, .of_selected rfl rfl rfl hattempted⟩
  | seek hread =>
    obtain ⟨hfollows, hattempted⟩ := readServers_follows hread
    exact ⟨[], hfollows, .of_read (List.suffix_refl _) hattempted⟩
  | giveUp _ => exact ⟨_, (Follows.refl _).note _ _ _ _, .of_selected rfl rfl rfl rfl⟩
  | skip _ _ => exact ⟨[], .refl _, .of_read (List.suffix_refl _) rfl⟩
  | pass _ _ _ => exact ⟨[], .refl _, .of_read (List.suffix_refl _) rfl⟩
  | lookUp hrest htarget hnew =>
    rw [Bool.or_eq_false_iff] at hnew
    exact ⟨[], ⟨(List.append_nil _).symm, rfl, .refl _⟩,
      .opens rfl List.mem_cons_self rfl (hrest ▸ List.mem_cons_self) htarget rfl hnew.2 rfl rfl⟩
  | failed => exact ⟨[], .refl _, .of_read (List.suffix_refl _) rfl⟩
  | useless hread =>
    obtain ⟨hfollows, hattempted⟩ := knownAddresses_follows hread
    exact ⟨[], hfollows, .of_read (List.suffix_refl _) hattempted⟩
  | found hread _ =>
    obtain ⟨hfollows, hattempted⟩ := knownAddresses_follows hread
    exact ⟨_, hfollows.note _ _ _ _, .of_selected rfl rfl rfl hattempted⟩
  | exhausted _ => exact ⟨[], answers_follows _ _, .of_read (List.suffix_cons _ _) rfl⟩
  | round _ => exact ⟨[], .refl _, .of_read (List.suffix_refl _) rfl⟩
  | ask hask =>
    obtain ⟨steps, hfollows, hattempted, hsteps, hnoted, hfails⟩ := askServers_singleton hask
    refine ⟨steps, hfollows, .takesUp rfl ?_ hsteps hattempted ?_⟩
    · rw [Position.frames, hnoted _ rfl]
      exact List.suffix_refl _
    · intro step hstep e hfailure
      cases hfails step hstep e hfailure
  | finish hask =>
    obtain ⟨steps, hfollows, hattempted, hsteps, -, hfails⟩ := askServers_singleton hask
    refine ⟨steps, hfollows, .takesUp rfl (List.suffix_cons _ _) hsteps hattempted ?_⟩
    intro step hstep e hfailure
    cases hfails step hstep e hfailure
    exact ⟨_, rfl, rfl⟩

theorem Run.follows {a b : Position σ} (h : R.Run a b) :
    ∃ steps, a.session.Follows R.client steps b.session := by
  induction h with
  | refl => exact ⟨[], .refl _⟩
  | tail _ hstep ih =>
    obtain ⟨steps, hfollows⟩ := ih
    obtain ⟨more, hmore, -⟩ := hstep.turn
    exact ⟨steps ++ more, hfollows.trans hmore⟩

/-! ### Order among the open frames -/

/-- What is true of the open frames at a position and the steps that led there. -/
structure Orderly (R : Resolver σ) (steps : List LookupStep) (a : Position σ) : Prop where
  /-- Each frame has one unit of budget less than the one around it. -/
  budgets : ∀ f fs, f :: fs <:+ a.frames → f.budget + fs.length = R.budget
  distinct : (a.frames.map fun f => f.question.key).Nodup
  attempted : ∀ f ∈ a.frames, a.session.hasAttempted f.question = true
  asked : ∀ p server outcome, .asked p server outcome ∈ steps → a.session.hasAttempted p = true
  /-- A frame has noted whatever has been asked for its question. -/
  tried : ∀ f ∈ a.frames, ∀ p server outcome, .asked p server outcome ∈ steps →
    p.key = f.question.key → f.tried.contains server = true
  once : (steps.filterMap LookupStep.exchange?).Nodup

theorem orderly_start (R : Resolver σ) (q : Question) (s : Session σ) :
    R.Orderly [] (R.start q s) where
  budgets f fs h := by
    have hlength := h.length_le
    simp only [start, Position.frames, List.map_nil, List.length_cons, List.length_nil] at hlength
    obtain rfl : fs = [] := List.eq_nil_of_length_eq_zero (by omega)
    rw [List.mem_singleton.1 (h.mem List.mem_cons_self : f ∈ [(⟨q, R.budget, .empty⟩ : OpenFrame)])]
    rfl
  distinct := List.nodup_singleton _
  attempted := by
    intro f hf
    rw [List.mem_singleton.1 (hf : f ∈ [(⟨q, R.budget, .empty⟩ : OpenFrame)])]
    exact Session.hasAttempted_singleton.trans q.sameAs_refl
  asked := by simp
  tried := by simp
  once := List.nodup_nil

section Order

variable {steps more : List LookupStep} {a b : Position σ}

theorem Orderly.quiet (h : R.Orderly steps a) (hframes : b.frames <:+ a.frames)
    (hmore : ∀ step ∈ more, step.asked? = none)
    (hattempted : b.session.attempted = a.session.attempted) : R.Orderly (steps ++ more) b := by
  have hno : ∀ p server outcome, .asked p server outcome ∈ steps ++ more →
      .asked p server outcome ∈ steps := by
    intro p server outcome hstep
    rcases List.mem_append.1 hstep with hstep | hstep
    · exact hstep
    · cases hmore _ hstep
  have hsame := Session.hasAttempted_of_attempted_eq hattempted
  constructor
  case budgets => exact fun f fs hfs => h.budgets f fs (hfs.trans hframes)
  case distinct => exact (hframes.sublist.map _).nodup h.distinct
  case attempted => exact fun f hf => (hsame _).trans (h.attempted f (hframes.mem hf))
  case asked =>
    exact fun p server outcome hstep => (hsame p).trans (h.asked p server outcome (hno _ _ _ hstep))
  case tried =>
    intro f hf p server outcome hstep
    exact h.tried f (hframes.mem hf) p server outcome (hno _ _ _ hstep)
  case once =>
    have hnone : more.filterMap LookupStep.exchange? = [] := by
      rw [List.filterMap_eq_nil_iff]
      intro step hstep
      cases step with
      | selected => rfl
      | asked => cases hmore _ hstep
    rw [List.filterMap_append, hnone, List.append_nil]
    exact h.once

theorem Orderly.opens (h : R.Orderly steps a) {f : OpenFrame} {fs : List OpenFrame}
    {q : Question} {budget : Nat} (hframe : a.frames = f :: fs) (hbudget : f.budget = budget + 1)
    (hnew : a.session.hasAttempted q = false) (hframes : b.frames = ⟨q, budget, .empty⟩ :: f :: fs)
    (hattempted : b.session.attempted = (a.session.attempt q).attempted) :
    R.Orderly steps b := by
  have hmore : ∀ p, b.session.hasAttempted p = true ↔
      a.session.hasAttempted p = true ∨ q.sameAs p = true := by
    intro p
    rw [Session.hasAttempted_of_attempted_eq hattempted, Session.hasAttempted_attempt]
  rw [← hframe] at hframes
  constructor
  case budgets =>
    intro g gs hgs
    rw [hframes, List.suffix_cons_iff] at hgs
    rcases hgs with heq | hgs
    · obtain ⟨rfl, rfl⟩ := List.cons.inj heq
      have hparent := h.budgets f fs (hframe ▸ List.suffix_refl _)
      rw [hframe, List.length_cons]
      simp only
      omega
    · exact h.budgets g gs hgs
  case distinct =>
    rw [hframes, List.map_cons, List.nodup_cons]
    refine ⟨?_, h.distinct⟩
    -- the question had no frame, and those of the open frames have one
    intro hmem
    obtain ⟨g, hg, hkey⟩ := List.mem_map.1 hmem
    exact Session.key_ne_of_hasAttempted (h.attempted g hg) hnew hkey
  case attempted =>
    intro g hg
    rw [hframes, List.mem_cons] at hg
    rcases hg with rfl | hg
    · exact (hmore q).2 (.inr q.sameAs_refl)
    · exact (hmore _).2 (.inl (h.attempted g hg))
  case asked =>
    exact fun p server outcome hstep => (hmore p).2 (.inl (h.asked p server outcome hstep))
  case tried =>
    intro g hg p server outcome hstep hkey
    rw [hframes, List.mem_cons] at hg
    rcases hg with rfl | hg
    · -- nothing has been asked for a question without a frame
      exact absurd hkey (Session.key_ne_of_hasAttempted (h.asked p server outcome hstep) hnew)
    · exact h.tried g hg p server outcome hstep hkey
  case once => exact h.once

/-- What a frame has not noted has not been asked for its question. -/
theorem Orderly.not_mem_exchanges (h : R.Orderly steps a) {f : OpenFrame} (hf : f ∈ a.frames)
    {server : Record} (huntried : f.tried.contains server = false) :
    (f.question.key, server.identity) ∉ steps.filterMap LookupStep.exchange? := by
  intro hmem
  obtain ⟨step, hstep, hexchange⟩ := List.mem_filterMap.1 hmem
  obtain ⟨p, x, outcome, rfl, heq⟩ := LookupStep.exchange?_eq_some.1 hexchange
  obtain ⟨hkey, hidentity⟩ := Prod.mk.inj heq
  have htried := h.tried f hf p x outcome hstep hkey.symm
  rw [RecordSet.contains_congr hidentity.symm, huntried] at htried
  cases htried

/-- Marking a server keeps the notes of a frame and adds one. -/
theorem Orderly.mark (h : R.Orderly steps a) {f : OpenFrame} {fs : List OpenFrame}
    {server : Record} (hframe : a.frames = f :: fs) (hframes : b.frames <:+ f.mark server :: fs)
    (hmore : more = [] ∨ f.tried.contains server = false ∧
      ∃ outcome, more = [.asked f.question server outcome])
    (hattempted : b.session.attempted = a.session.attempted) : R.Orderly (steps ++ more) b := by
  have hsame := Session.hasAttempted_of_attempted_eq hattempted
  have hnext : ∀ p x outcome, .asked p x outcome ∈ steps ++ more →
      .asked p x outcome ∈ steps ∨ p = f.question ∧ x = server := by
    intro p x outcome hstep
    rcases List.mem_append.1 hstep with hstep | hstep
    · exact .inl hstep
    · rcases hmore with rfl | ⟨-, _, rfl⟩
      · cases hstep
      · cases List.mem_singleton.1 hstep
        exact .inr ⟨rfl, rfl⟩
  have hf : f ∈ a.frames := hframe ▸ List.mem_cons_self
  have hkeys : (f.mark server :: fs).map (fun g => g.question.key) =
      a.frames.map fun g => g.question.key := by
    rw [hframe]
    rfl
  have hdistinct := h.distinct
  rw [hframe, List.map_cons, List.nodup_cons] at hdistinct
  constructor
  case budgets =>
    intro g gs hgs
    have hgs' := hgs.trans hframes
    rw [List.suffix_cons_iff] at hgs'
    rcases hgs' with heq | hgs'
    · obtain ⟨rfl, rfl⟩ := List.cons.inj heq
      exact h.budgets f gs (hframe ▸ List.suffix_refl _)
    · exact h.budgets g gs (hframe ▸ hgs'.trans (List.suffix_cons f fs))
  case distinct => exact (hframes.sublist.map _).nodup (hkeys ▸ h.distinct)
  case attempted =>
    intro g hg
    rw [hsame]
    rcases List.mem_cons.1 (hframes.mem hg) with rfl | hg
    · exact h.attempted f hf
    · exact h.attempted g (hframe ▸ List.mem_cons_of_mem f hg)
  case asked =>
    intro p x outcome hstep
    rw [hsame]
    rcases hnext p x outcome hstep with hstep | ⟨rfl, -⟩
    · exact h.asked p x outcome hstep
    · exact h.attempted f hf
  case tried =>
    intro g hg p x outcome hstep hkey
    rcases List.mem_cons.1 (hframes.mem hg) with rfl | hg
    · refine RecordSet.contains_insert.2 ?_
      rcases hnext p x outcome hstep with hstep | ⟨-, rfl⟩
      · exact .inl (h.tried f hf p x outcome hstep hkey)
      · exact .inr rfl
    · rcases hnext p x outcome hstep with hstep | ⟨rfl, -⟩
      · exact h.tried g (hframe ▸ List.mem_cons_of_mem f hg) p x outcome hstep hkey
      · -- the frames around are for other questions
        exact absurd (hkey ▸ List.mem_map_of_mem hg) hdistinct.1
  case once =>
    rcases hmore with rfl | ⟨huntried, outcome, rfl⟩
    · rw [List.append_nil]
      exact h.once
    · have honce := h.once.concat (h.not_mem_exchanges hf huntried)
      rw [List.concat_eq_append] at honce
      rw [List.filterMap_append]
      exact honce

theorem Orderly.turn (h : R.Orderly steps a) (hturn : Turn a b more) :
    R.Orderly (steps ++ more) b := by
  cases hturn with
  | quiet hframes hsteps hattempted =>
    exact h.quiet hframes (fun step hstep => (hsteps step hstep).1) hattempted
  | opens hsteps _ hframe _ _ _ hnew hframes hattempted =>
    subst hsteps
    rw [List.append_nil]
    exact h.opens hframe rfl hnew hframes hattempted
  | takesUp hframe hframes hsteps hattempted _ => exact h.mark hframe hframes hsteps hattempted

/-- Whatever has had a frame is remembered. -/
theorem Turn.hasAttempted (hturn : Turn a b more) {p : Question}
    (hp : a.session.hasAttempted p = true) : b.session.hasAttempted p = true := by
  cases hturn with
  | quiet _ _ hattempted => exact (Session.hasAttempted_of_attempted_eq hattempted p).trans hp
  | opens _ _ _ _ _ _ _ _ hattempted =>
    rw [Session.hasAttempted_of_attempted_eq hattempted]
    exact Session.hasAttempted_attempt.2 (.inl hp)
  | takesUp _ _ _ hattempted _ => exact (Session.hasAttempted_of_attempted_eq hattempted p).trans hp

theorem Run.hasAttempted (h : R.Run a b) {p : Question} (hp : a.session.hasAttempted p = true) :
    b.session.hasAttempted p = true := by
  induction h with
  | refl => exact hp
  | tail _ hstep ih =>
    obtain ⟨_, -, hturn⟩ := hstep.turn
    exact hturn.hasAttempted ih

theorem Run.orderly {q : Question} {s : Session σ} (h : R.Run (R.start q s) a) :
    ∃ steps, s.Follows R.client steps a.session ∧ R.Orderly steps a := by
  induction h with
  | refl => exact ⟨[], ⟨(List.append_nil _).symm, rfl, .refl _⟩, orderly_start R q s⟩
  | tail _ hstep ih =>
    obtain ⟨steps, hfollows, horderly⟩ := ih
    obtain ⟨more, hmore, hturn⟩ := hstep.turn
    exact ⟨steps ++ more, hfollows.trans hmore, horderly.turn hturn⟩

/-- The depth to which frames are nested is bounded by the budget. -/
theorem Orderly.length_frames_le (h : R.Orderly steps a) : a.frames.length ≤ R.budget + 1 := by
  cases hframes : a.frames with
  | nil => simp
  | cons f fs =>
    have := h.budgets f fs (hframes ▸ List.suffix_refl _)
    rw [List.length_cons]
    omega

end Order

/-! ### Main result -/

/-- A frame is opened only for a question that has had none. -/
theorem Step.hasAttempted_of_opening {c : Position σ} {p : Question} {budget : Nat}
    {outer : List Waiting} {u : Session σ} (h : R.Step c (.opening p budget outer u)) :
    c.session.hasAttempted p = false := by
  generalize hb : Position.opening p budget outer u = b at h
  cases h with
  | lookUp _ _ hnew =>
    rw [(Position.opening.inj hb).1]
    exact (Bool.or_eq_false_iff.1 hnew).2
  | _ => cases hb

/-- A question that has a frame gets no second one. -/
theorem Run.not_sameAs_of_opening {q p p' : Question} {s u u' : Session σ} {budget budget' : Nat}
    {outer outer' : List Waiting} (h : R.Run (R.start q s) (.opening p budget outer u))
    (h' : Relation.TransGen R.Step (.opening p budget outer u) (.opening p' budget' outer' u')) :
    p.sameAs p' = false := by
  obtain ⟨steps, -, horderly⟩ := h.orderly
  have hp : u.hasAttempted p = true :=
    horderly.attempted ⟨p, budget, .empty⟩ (by simp [Position.frames])
  obtain ⟨c, hrun, hstep⟩ := Relation.TransGen.tail'_iff.1 h'
  have hc : c.session.hasAttempted p = true := Run.hasAttempted hrun hp
  have hnew : c.session.hasAttempted p' = false := hstep.hasAttempted_of_opening
  rw [← Bool.not_eq_true, Question.sameAs_iff]
  exact Session.key_ne_of_hasAttempted hc hnew

end Resolver

end IterativeDns
