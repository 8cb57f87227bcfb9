import IterativeDns.Proofs.Lookup.Frames
import Mathlib.Logic.Relation

/-!
# The course of a lookup

A frame is a loop over servers within a loop over rounds, and selecting the servers of a round
makes frames of its own. This module takes both apart into single actions.

* Between two actions a frame stands at a `Stage`. `Move` is one action that leaves the frame
  open and `Finish` the one that ends it. **A frame with a result has found it in the cache, or
  has made some moves and then finished** (`frame_cases`).
* Selecting servers is a row of `Errand`s: the cache is read, or a nameserver's address is looked
  up in a frame of its own (`selectServers_errands`).

What a lookup preserves is shown for single moves and errands, with the lookups made on errands
as the hypothesis of the induction (`resolve_induction`).
-/

namespace IterativeDns.Resolver

variable {σ : Type} (R : Resolver σ)

/-! ### Stages, moves and the finish -/

/-- The frame after a server has been taken up. -/
def Frame.mark (f : Frame) (server : Record) : Frame :=
  { f with tried := f.tried.insert server }

/-- What a frame has of the answer after a server has told it some records, where the cache then
shows `cached`. -/
def Frame.gather (f : Frame) (q : Question) (records : List Record) (cached : RecordSet) :
    RecordSet :=
  (f.answers.insertAll (records.filter (Record.isAnswer q))).union cached

/-! ### One server of a round -/

section Singleton

variable {R} {q : Question} {server : Record} {f : Frame} {s : Session σ}

theorem Frame.mark_of_tried (h : f.tried.contains server = true) : f.mark server = f := by
  rw [Frame.mark, RecordSet.insert, dif_pos h]

/-- A server that has been tried is passed over. -/
theorem askServers_of_tried (h : f.tried.contains server = true) :
    R.askServers q [server] f s = (.goesOn f, s) := by
  simp only [askServers, h, if_true]

/-- A server without an address is taken up and not asked. -/
theorem askServers_of_address?_eq_none (h : server.address? = none) :
    R.askServers q [server] f s = (.goesOn (f.mark server), s) := by
  by_cases htried : f.tried.contains server = true
  · rw [askServers_of_tried htried, Frame.mark_of_tried htried]
  · simp only [askServers, if_neg htried, h]
    rfl

/-- How asking one server ends, given what has been learned from it. -/
def afterAsking (R : Resolver σ) (q : Question) (server : Record) (f : Frame) :
    Except Failure (Option (List Record)) × Session σ → RoundEnd × Session σ
  | (.error e, t) => (.finished (.error e), t)
  | (.ok none, t) => (.goesOn (f.mark server), t)
  | (.ok (some records), t) =>
    let answers := f.gather q records (t.answers (R.now t) q).1
    if q.isSettledBy answers then (.finished (.ok answers), (t.answers (R.now t) q).2)
    else (.goesOn { f.mark server with answers }, (t.answers (R.now t) q).2)

theorem askServers_of_untried (huntried : f.tried.contains server = false) {address : Address}
    (haddress : server.address? = some address) :
    R.askServers q [server] f s = R.afterAsking q server f (R.askServer q server address s) := by
  simp only [askServers, huntried, haddress, Bool.false_eq_true, if_false]
  match R.askServer q server address s with
  | (.error _, _) => rfl
  | (.ok none, _) => rfl
  | (.ok (some _), _) => rfl

/-- After asking a server a frame has marked it, and at most the cache is read. -/
theorem afterAsking_eq {gain : Except Failure (Option (List Record))} {t u : Session σ}
    {ending : RoundEnd} (h : R.afterAsking q server f (gain, t) = (ending, u)) :
    (u = t ∨ u = (t.answers (R.now t) q).2) ∧
      ∀ f', ending = .goesOn f' → f'.tried = (f.mark server).tried := by
  match gain with
  | .error e =>
    cases h
    exact ⟨.inl rfl, nofun⟩
  | .ok none =>
    cases h
    refine ⟨.inl rfl, ?_⟩
    rintro f' ⟨⟩
    rfl
  | .ok (some records) =>
    simp only [afterAsking] at h
    split at h
    · cases h
      exact ⟨.inr rfl, nofun⟩
    · cases h
      refine ⟨.inr rfl, ?_⟩
      rintro f' ⟨⟩
      rfl

end Singleton

/-! ### Moves of a frame -/

/-- Where a frame stands between two of its actions. -/
structure Stage (σ : Type) where
  /-- The servers of the round that have not been taken up. -/
  pending : List Record
  frame : Frame
  session : Session σ

section Frames

variable (select : Session σ → Option (List Record × Session σ)) (q : Question)

/-- One action of a frame that does not end it. -/
inductive Move : Stage σ → Stage σ → Prop where
  /-- A round begins, and some of its servers have not been tried. -/
  | select {f : Frame} {s t : Session σ} {servers : List Record}
      (hselect : select s = some (servers, t))
      (huntried : servers.all f.tried.contains = false) :
      Move ⟨[], f, s⟩ ⟨servers, f, t⟩
  /-- A server that has been tried is passed over. -/
  | pass {server : Record} {servers : List Record} {f : Frame} {s : Session σ}
      (htried : f.tried.contains server = true) :
      Move ⟨server :: servers, f, s⟩ ⟨servers, f, s⟩
  /-- A server without an address cannot be asked. -/
  | skip {server : Record} {servers : List Record} {f : Frame} {s : Session σ}
      (htried : f.tried.contains server = false) (haddress : server.address? = none) :
      Move ⟨server :: servers, f, s⟩ ⟨servers, f.mark server, s⟩
  | silent {server : Record} {servers : List Record} {f : Frame} {s t : Session σ}
      {address : Address} (htried : f.tried.contains server = false)
      (haddress : server.address? = some address)
      (hask : R.askServer q server address s = (.ok none, t)) :
      Move ⟨server :: servers, f, s⟩ ⟨servers, f.mark server, t⟩
  /-- A server tells records that do not settle the question. -/
  | told {server : Record} {servers : List Record} {f : Frame} {s t : Session σ}
      {address : Address} {records : List Record} (htried : f.tried.contains server = false)
      (haddress : server.address? = some address)
      (hask : R.askServer q server address s = (.ok (some records), t))
      (hopen : ¬q.isSettledBy (f.gather q records (t.answers (R.now t) q).1) = true) :
      Move ⟨server :: servers, f, s⟩
        ⟨servers, { f.mark server with answers := f.gather q records (t.answers (R.now t) q).1 },
          (t.answers (R.now t) q).2⟩

/-- Any number of moves. -/
abbrev Moves : Stage σ → Stage σ → Prop :=
  Relation.ReflTransGen (R.Move select q)

/-- The action that ends a frame, and how. -/
inductive Finish : Stage σ → Except Failure RecordSet × Session σ → Prop where
  /-- Nobody is left to ask. -/
  | exhausted {f : Frame} {s t : Session σ} {servers : List Record}
      (hselect : select s = some (servers, t))
      (htried : servers.all f.tried.contains = true) :
      Finish ⟨[], f, s⟩ (.ok (f.answers.union (t.answers (R.now t) q).1), (t.answers (R.now t) q).2)
  | failed {server : Record} {servers : List Record} {f : Frame} {s t : Session σ}
      {address : Address} {e : Failure} (htried : f.tried.contains server = false)
      (haddress : server.address? = some address)
      (hask : R.askServer q server address s = (.error e, t)) :
      Finish ⟨server :: servers, f, s⟩ (.error e, t)
  | settled {server : Record} {servers : List Record} {f : Frame} {s t : Session σ}
      {address : Address} {records : List Record} (htried : f.tried.contains server = false)
      (haddress : server.address? = some address)
      (hask : R.askServer q server address s = (.ok (some records), t))
      (hsettled : q.isSettledBy (f.gather q records (t.answers (R.now t) q).1) = true) :
      Finish ⟨server :: servers, f, s⟩
        (.ok (f.gather q records (t.answers (R.now t) q).1), (t.answers (R.now t) q).2)

/-- How asking the servers of a round that stands at some stage can end. -/
inductive RoundEnds (stage : Stage σ) : RoundEnd × Session σ → Prop where
  | goesOn {f : Frame} {t : Session σ} (hmoves : R.Moves select q stage ⟨[], f, t⟩) :
      RoundEnds stage (.goesOn f, t)
  | finished {last : Stage σ} {result : Except Failure RecordSet} {t : Session σ}
      (hmoves : R.Moves select q stage last) (hfinish : R.Finish select q last (result, t)) :
      RoundEnds stage (.finished result, t)

variable {R select q}

theorem RoundEnds.head {a b : Stage σ} {r : RoundEnd × Session σ} (hmove : R.Move select q a b)
    (h : R.RoundEnds select q b r) : R.RoundEnds select q a r := by
  cases h with
  | goesOn hmoves => exact .goesOn (hmoves.head hmove)
  | finished hmoves hfinish => exact .finished (hmoves.head hmove) hfinish

variable (R select q)

theorem askServers_roundEnds (servers : List Record) (f : Frame) (s : Session σ) :
    R.RoundEnds select q ⟨servers, f, s⟩ (R.askServers q servers f s) := by
  induction servers generalizing f s with
  | nil => exact .goesOn .refl
  | cons server servers ih =>
    rw [askServers]
    by_cases htried : f.tried.contains server = true
    · rw [if_pos htried]
      exact (ih f s).head (.pass htried)
    · rw [if_neg htried]
      rw [Bool.not_eq_true] at htried
      cases haddress : server.address? with
      | none => exact (ih (f.mark server) s).head (.skip htried haddress)
      | some address =>
        simp only
        split
        · next hask => exact .finished .refl (.failed htried haddress hask)
        · next t hask => exact (ih (f.mark server) t).head (.silent htried haddress hask)
        · next records t hask =>
          split
          · next hsettled => exact .finished .refl (.settled htried haddress hask hsettled)
          · next hopen => exact (ih _ _).head (.told htried haddress hask hopen)

variable {R select q}

theorem rounds_course {limit : Nat} {f : Frame} {s : Session σ}
    {r : Except Failure RecordSet × Session σ} (h : R.rounds select q limit f s = some r) :
    ∃ last, R.Moves select q ⟨[], f, s⟩ last ∧ R.Finish select q last r := by
  induction limit generalizing f s with
  | zero => cases h
  | succ limit ih =>
    rw [rounds] at h
    cases hselect : select s with
    | none => simp [hselect] at h
    | some selected =>
      obtain ⟨servers, t⟩ := selected
      simp only [hselect] at h
      by_cases htried : servers.all f.tried.contains = true
      · rw [if_pos htried] at h
        cases h
        exact ⟨_, .refl, .exhausted hselect htried⟩
      · rw [if_neg htried] at h
        have hbegin : R.Move select q ⟨[], f, s⟩ ⟨servers, f, t⟩ :=
          .select hselect (by simpa using htried)
        have hround := R.askServers_roundEnds select q servers f t
        cases hask : R.askServers q servers f t with
        | mk outcome u =>
          rw [hask] at h hround
          cases hround with
          | finished hmoves hfinish =>
            cases h
            exact ⟨_, hmoves.head hbegin, hfinish⟩
          | goesOn hmoves =>
            obtain ⟨last, hrest, hfinish⟩ := ih h
            exact ⟨last, (hmoves.trans hrest).head hbegin, hfinish⟩

/-- A frame takes its answer from the cache, or it makes some moves and finishes. -/
theorem frame_cases {s : Session σ} {r : Except Failure RecordSet × Session σ}
    (h : R.frame select q s = some r) :
    (q.isSettledBy (s.answers (R.now s) q).1 = true ∧
        r = (.ok (s.answers (R.now s) q).1, (s.answers (R.now s) q).2)) ∨
      (¬q.isSettledBy (s.answers (R.now s) q).1 = true ∧
        ∃ last, R.Moves select q
            ⟨[], ⟨(s.answers (R.now s) q).1, .empty⟩, (s.answers (R.now s) q).2⟩ last ∧
          R.Finish select q last r) := by
  simp only [frame] at h
  by_cases hsettled : q.isSettledBy (s.answers (R.now s) q).1 = true
  · rw [if_pos hsettled] at h
    exact .inl ⟨hsettled, (Option.some.inj h).symm⟩
  · rw [if_neg hsettled] at h
    exact .inr ⟨hsettled, rounds_course h⟩

end Frames

/-! ### Selecting servers -/

/-- What is done while servers are selected: the cache is read, or an address is looked up that
no frame has looked up before. -/
inductive Errand (resolve? : Option (Look (Session σ))) : Session σ → Session σ → Prop where
  | bestNameservers (s : Session σ) (q : Question) :
      Errand resolve? s (s.bestNameservers (R.now s) q).2
  | knownAddresses (s : Session σ) (nameservers : List Record) :
      Errand resolve? s (s.knownAddresses (R.now s) nameservers R.useIpv6).2
  | lookUp {resolve : Look (Session σ)} {q : Question} {s t : Session σ}
      {result : Except Failure RecordSet} (hresolve : resolve? = some resolve)
      (hnew : s.hasAttempted q = false) (hresult : resolve q (s.attempt q) = some (result, t)) :
      Errand resolve? s t

/-- Any number of errands. -/
abbrev Errands (resolve? : Option (Look (Session σ))) : Session σ → Session σ → Prop :=
  Relation.ReflTransGen (R.Errand resolve?)

variable {R}

theorem findAddresses_errands {resolve : Look (Session σ)} {recordClass : RecordClass}
    {nameservers rest servers : List Record} {s t : Session σ}
    (h : R.findAddresses resolve recordClass nameservers rest s = some (servers, t)) :
    R.Errands (some resolve) s t := by
  induction rest generalizing s with
  | nil =>
    cases h
    exact .refl
  | cons ns rest ih =>
    simp only [findAddresses] at h
    split at h
    · exact ih h
    · next target htarget =>
      split at h
      · exact ih h
      · next hskip =>
        rw [Bool.or_eq_true, not_or, Bool.not_eq_true, Bool.not_eq_true] at hskip
        split at h
        · cases h
        · next u hres => exact (ih h).head (.lookUp rfl hskip.2 hres)
        · next u hres =>
          have hlookUp : R.Errands (some resolve) s
              (u.knownAddresses (R.now u) nameservers R.useIpv6).2 :=
            .head (.lookUp rfl hskip.2 hres) (.single (.knownAddresses u nameservers))
          split at h
          · exact hlookUp.trans (ih h)
          · cases h
            exact hlookUp

/-- Selecting servers is a row of errands and then the note of it in the history. -/
theorem selectServers_errands {resolve? : Option (Look (Session σ))} {q : Question}
    {servers : List Record} {s t : Session σ}
    (h : R.selectServers resolve? q s = some (servers, t)) :
    ∃ u, R.Errands resolve? s u ∧
      t = u.record (.selected q (R.snapshot s) (R.snapshot u) servers) := by
  have hread : R.Errands resolve? s
      ((s.bestNameservers (R.now s) q).2.knownAddresses (R.now s) (s.bestNameservers (R.now s) q).1
        R.useIpv6).2 :=
    .head (.bestNameservers s q) (.single (.knownAddresses _ _))
  simp only [selectServers] at h
  split at h
  · cases h
  · next found u hselected =>
    cases h
    refine ⟨u, ?_, rfl⟩
    split at hselected
    · split at hselected
      · exact hread.trans (findAddresses_errands hselected)
      · cases hselected
        exact hread
    · cases hselected
      exact hread

/-! ### Nested frames -/

variable (R)

/-- How the frames of a lookup with a budget look up addresses. -/
def nested? : Nat → Option (Look (Session σ))
  | 0 => none
  | budget + 1 => some (R.resolve budget)

theorem resolve_eq_frame (budget : Nat) (q : Question) (s : Session σ) :
    R.resolve budget q s = R.frame (R.selectServers (R.nested? budget) q) q s := by
  cases budget <;> rfl

variable {R}

/-- What holds of a frame if it holds of the frames nested in it holds of every frame. -/
theorem resolve_induction
    {motive : Question → Session σ → Except Failure RecordSet × Session σ → Prop}
    (step : ∀ resolve?,
      (∀ resolve, resolve? = some resolve → ∀ q s r, resolve q s = some r → motive q s r) →
      ∀ q s r, R.frame (R.selectServers resolve? q) q s = some r → motive q s r)
    {budget : Nat} {q : Question} {s : Session σ} {r : Except Failure RecordSet × Session σ}
    (h : R.resolve budget q s = some r) : motive q s r := by
  induction budget generalizing q s r with
  | zero => exact step none (fun _ hnone => nomatch hnone) q s r h
  | succ budget ih =>
    refine step (some (R.resolve budget)) ?_ q s r h
    intro resolve hresolve p u r' hr
    cases hresolve
    exact ih hr

end IterativeDns.Resolver
