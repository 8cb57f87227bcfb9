import IterativeDns.Proofs.Lookup.Servers
import Mathlib.Data.List.Dedup
import Mathlib.Data.List.ProdSigma

/-!
# Bounds of a lookup

Delegations may lead in a circle, and servers may go on naming new servers. What a lookup does is
bounded all the same by what it has been told, and it ends if only so much can be told.

* Every exchange is for the question of the lookup or for the address of a nameserver that has
  been named, goes to an address that is known, and is not made twice. So there are at most
  `(1 + T) * A` of them, for `T` names of nameservers and `A` address records
  (`Orderly.length_exchanges_le`).
* A frame goes on with a round only if it takes up a server that it has not noted. If all that can
  be told are some records, a frame has no more rounds than there are records
  (`rounds_ne_none`), and by induction on the budget every frame ends (`resolve_ne_none`).

`asks_once_and_ends` puts them together.
-/

namespace IterativeDns

/-! ### What is counted -/

/-- The names at which the nameserver records among some records point, letter case aside. -/
def nameserverTargets (rs : List Record) : List (List Char) :=
  ((rs.filter fun r => r.recordType = .ns).filterMap fun r =>
    r.target?.map fun target => Text.lower (Name.normalize target)).dedup

/-- The address records among some records, copies counted once. -/
def addressRecords (rs : List Record) :
    List ((List Char × RecordType × RecordClass) × Rdata) :=
  ((rs.filter fun r => r.address?.isSome ∧ (r.recordType = .a ∨ r.recordType = .aaaa)).map
    Record.identity).dedup

theorem mem_nameserverTargets {rs : List Record} {name : List Char} :
    name ∈ nameserverTargets rs ↔ ∃ r ∈ rs, r.recordType = .ns ∧
      ∃ target, r.target? = some target ∧ Text.lower (Name.normalize target) = name := by
  simp [nameserverTargets, and_assoc]

theorem mem_addressRecords {rs : List Record}
    {i : (List Char × RecordType × RecordClass) × Rdata} :
    i ∈ addressRecords rs ↔ ∃ r ∈ rs, r.address?.isSome = true ∧
      (r.recordType = .a ∨ r.recordType = .aaaa) ∧ r.identity = i := by
  simp [addressRecords, and_assoc]

/-- The records among which are all that a client tells from some state on, however long each copy
stays good. -/
def Client.TellsFrom {σ : Type} (C : Client σ) (x : σ) (tellable : List Record) : Prop :=
  ∀ steps y, C.Serves x steps y → ∀ r ∈ steps.flatMap LookupStep.told,
    ∃ u ∈ tellable, u.identity = r.identity

/-- A client tells no more than its single exchanges do. -/
theorem Client.tellsFrom_of_told {σ : Type} {C : Client σ} {tellable : List Record}
    (h : ∀ q server address x, ∀ r ∈ (LookupStep.asked q server (C.ask q address x).1.outcome).told,
      ∃ u ∈ tellable, u.identity = r.identity) (x : σ) : C.TellsFrom x tellable := by
  intro steps y hserved
  induction steps generalizing x with
  | nil => exact List.forall_mem_nil _
  | cons step steps ih =>
    cases step with
    | selected => exact ih x hserved
    | asked q server outcome =>
      obtain ⟨address, -, rfl, hrest⟩ := hserved
      rw [List.flatMap_cons, List.forall_mem_append]
      exact ⟨h q server address x, ih _ hrest⟩

namespace RecordSet

theorem size_le_insertAll (s : RecordSet) (rs : List Record) :
    s.size ≤ (s.insertAll rs).size := by
  induction rs generalizing s with
  | nil => exact Nat.le_refl _
  | cons r rs ih =>
    refine Nat.le_trans ?_ (ih (s.insert r))
    rw [size, size, toList_insert]
    split <;> simp

/-- A set grows with records that it does not have. -/
theorem size_lt_insertAll {s : RecordSet} {rs : List Record} (h : ¬rs.all s.contains = true) :
    s.size < (s.insertAll rs).size := by
  induction rs generalizing s with
  | nil => exact absurd rfl h
  | cons r rs ih =>
    by_cases hr : s.contains r = true
    · rw [insertAll_cons, insert, dif_pos hr]
      refine ih ?_
      rw [List.all_cons, hr, Bool.true_and] at h
      exact h
    · refine Nat.lt_of_lt_of_le ?_ ((s.insert r).size_le_insertAll rs)
      rw [size, size, toList_insert, if_neg hr, List.length_append]
      exact Nat.lt_succ_self _

/-- A set of records that are all among some others is not larger than these. -/
theorem size_le_length {s : RecordSet} {tellable : List Record}
    (h : ∀ r ∈ s, ∃ u ∈ tellable, u.identity = r.identity) : s.size ≤ tellable.length := by
  have hsub : s.toList.map Record.identity ⊆ tellable.map Record.identity := by
    intro i hi
    obtain ⟨r, hr, rfl⟩ := List.mem_map.1 hi
    obtain ⟨u, hu, hidentity⟩ := h r hr
    exact List.mem_map.2 ⟨u, hu, hidentity⟩
  have hle := (List.subperm_of_subset s.distinct hsub).length_le
  rwa [List.length_map, List.length_map] at hle

end RecordSet

namespace Resolver

variable {σ : Type} {R : Resolver σ}

/-! ### How many exchanges there are -/

section Exchanges

variable {q : Question} {s : Session σ} {steps : List LookupStep} {a : Position σ}

/-- An exchange is for a question that could come up, with a server that could be known. -/
theorem Selecting.mem_product (hwf : s.cache.WellFormed)
    (hserved : R.client.Serves s.client steps a.session.client)
    (hselecting : R.Selecting s steps a) (hsourced : Sourced s.cache q steps a)
    {e : (List Char × RecordType × RecordClass) ×
      ((List Char × RecordType × RecordClass) × Rdata)}
    (he : e ∈ steps.filterMap LookupStep.exchange?) :
    e ∈ (q.key :: (nameserverTargets (s.cache.records ++ steps.flatMap LookupStep.told)).map
        fun name => (name, .a, q.recordClass)) ×ˢ
      addressRecords (s.cache.records ++ steps.flatMap LookupStep.told) := by
  obtain ⟨step, hstep, hexchange⟩ := List.mem_filterMap.1 he
  obtain ⟨p, server, outcome, rfl, rfl⟩ := LookupStep.exchange?_eq_some.1 hexchange
  refine List.pair_mem_product.2 ⟨?_, ?_⟩
  · have hnamed : Named s.cache q steps p := hsourced.steps _ hstep
    rcases hnamed with rfl | ⟨ns, hns, htype, target, htarget, hp⟩
    · exact List.mem_cons_self
    · refine List.mem_cons_of_mem _ (List.mem_map.2 ⟨Text.lower (Name.normalize target), ?_, ?_⟩)
      · exact mem_nameserverTargets.2 ⟨ns, hns, htype, target, htarget, rfl⟩
      · rw [hp, Question.ofText, Question.key]
  · obtain ⟨earlier, later, hsplit⟩ := List.append_of_mem hstep
    obtain ⟨prior, before, after, servers, between, rfl, -, hselected, hserver⟩ :=
      hselecting.exists_selectedFrom hsplit
    obtain ⟨_, _, -, -, haddress⟩ := hselected.exists_closest hwf hserver
    obtain ⟨ip, hip⟩ := Client.Serves.exists_address (hsplit ▸ hserved)
    refine mem_addressRecords.2 ⟨server, ?_, Option.isSome_iff_exists.2 ⟨ip, hip⟩,
      haddress.version.imp id And.left, rfl⟩
    rw [hsplit, List.append_assoc]
    exact told_append_subset (mem_records_of_told hwf hselected.ended.cache haddress.held)

theorem Orderly.length_exchanges_le (hwf : s.cache.WellFormed) (horderly : R.Orderly steps a)
    (hserved : R.client.Serves s.client steps a.session.client)
    (hselecting : R.Selecting s steps a) (hsourced : Sourced s.cache q steps a) :
    (steps.filterMap LookupStep.exchange?).length ≤
      (1 + (nameserverTargets (s.cache.records ++ steps.flatMap LookupStep.told)).length) *
        (addressRecords (s.cache.records ++ steps.flatMap LookupStep.told)).length := by
  have hle := (List.subperm_of_subset horderly.once
    fun _ he => hselecting.mem_product hwf hserved hsourced he).length_le
  rwa [List.length_product, List.length_cons, List.length_map, Nat.add_comm _ 1] at hle

end Exchanges

/-! ### That frames end -/

/-- Nothing is held or can be told in a session but copies of some records. -/
structure Confined (C : Client σ) (tellable : List Record) (s : Session σ) : Prop where
  wellFormed : s.cache.WellFormed
  held : ∀ r ∈ s.cache.records, ∃ u ∈ tellable, u.identity = r.identity
  told : C.TellsFrom s.client tellable

variable {tellable : List Record}

theorem Confined.follows {C : Client σ} {s t : Session σ} {steps : List LookupStep}
    (h : Confined C tellable s) (hfollows : s.Follows C steps t) : Confined C tellable t where
  wellFormed := hfollows.wellFormed h.wellFormed
  held := by
    intro r hr
    rcases List.mem_append.1 (mem_records_of_told h.wellFormed hfollows.cache hr) with hr | hr
    · exact h.held r hr
    · exact h.told steps t.client hfollows.served r hr
  told := by
    intro more y hmore r hr
    refine h.told (steps ++ more) y (hfollows.served.append hmore) r ?_
    rw [List.flatMap_append]
    exact List.mem_append_right _ hr

theorem Confined.attempt {C : Client σ} {s : Session σ} (h : Confined C tellable s)
    (q : Question) : Confined C tellable (s.attempt q) :=
  ⟨h.wellFormed, h.held, h.told⟩

theorem Confined.of_resolve {budget : Nat} {q : Question} {s : Session σ}
    {r : Except Failure RecordSet × Session σ} (h : Confined R.client tellable s)
    (hresolve : R.resolve budget q s = some r) : Confined R.client tellable r.2 := by
  have hcomes := comes_resolve R budget q [] s
  rw [hresolve] at hcomes
  obtain ⟨steps, hfollows⟩ := Run.follows hcomes
  exact h.follows hfollows

/-- What has been selected is known. -/
theorem Step.exists_of_selected {a : Position σ} {q : Question} {budget : Nat} {f : Frame}
    {servers : List Record} {outer : List Waiting} {t : Session σ}
    (h : R.Step a (.selected q budget f servers outer t)) :
    ∃ nameservers, ∀ server ∈ servers,
      server ∈ (t.cache.knownAddresses (R.now t) nameservers R.useIpv6).1 := by
  cases h with
  | select hread _ =>
    obtain ⟨-, rfl⟩ := readServers_eq hread
    exact ⟨_, fun _ hserver => hserver⟩
  | giveUp _ => exact ⟨[], List.forall_mem_nil _⟩
  | found hread _ =>
    obtain rfl := knownAddresses_eq hread
    exact ⟨_, fun _ hserver => hserver⟩

theorem Confined.of_selectServers {budget : Nat} {q : Question} {s t : Session σ}
    {servers : List Record} (h : Confined R.client tellable s)
    (hselect : R.selectServers (R.nested? budget) q s = some (servers, t)) :
    Confined R.client tellable t ∧ ∀ server ∈ servers, ∃ u ∈ tellable,
      u.identity = server.identity := by
  have hnested : R.ComesNested R.maxRounds budget :=
    fun nested _ p u outer => comes_resolve R nested p outer u
  have hcomes := comes_selectServers hnested q [] ⟨.empty, .empty⟩ s
  rw [hselect] at hcomes
  have hrun : R.Run (.asking q budget ⟨[], ⟨.empty, .empty⟩, s⟩ [])
    (.selected q budget ⟨.empty, .empty⟩ servers [] t) := hcomes
  obtain ⟨steps, hfollows⟩ := hrun.follows
  have ht : Confined R.client tellable t := h.follows hfollows
  refine ⟨ht, ?_⟩
  intro server hserver
  rcases hrun.cases_tail with heq | ⟨a, -, hstep⟩
  · cases heq
  · obtain ⟨nameservers, hknown⟩ := hstep.exists_of_selected
    obtain ⟨_, -, _, -, hlive⟩ := ht.wellFormed.mem_knownAddresses.1 (hknown server hserver)
    exact ht.held server (ht.wellFormed.mem_live.1 hlive).1

/-- A frame that goes on has noted all servers of the round. -/
theorem tried_of_askServers {q : Question} {servers : List Record} {f f' : Frame}
    {s t : Session σ} (h : R.askServers q servers f s = (.goesOn f', t)) :
    f'.tried = f.tried.insertAll servers := by
  induction servers generalizing f s with
  | nil =>
    cases h
    rfl
  | cons server servers ih =>
    rw [askServers_cons] at h
    cases hask : R.askServers q [server] f s with
    | mk ending u =>
      rw [hask] at h
      obtain ⟨_, -, -, -, hnoted, -⟩ := askServers_singleton hask
      cases ending with
      | finished result => cases h
      | goesOn g => rw [ih h, hnoted g rfl, RecordSet.insertAll_cons]

/-- A frame that goes on has noted more servers than before, and there are only so many. -/
theorem rounds_ne_none {budget : Nat} {q : Question}
    (hselect : ∀ s, Confined R.client tellable s →
      R.selectServers (R.nested? budget) q s ≠ none)
    {limit : Nat} {f : Frame} {s : Session σ} (hs : Confined R.client tellable s)
    (hf : ∀ r ∈ f.tried, ∃ u ∈ tellable, u.identity = r.identity)
    (hlimit : tellable.length < limit + f.tried.size) :
    R.rounds (R.selectServers (R.nested? budget) q) q limit f s ≠ none := by
  induction limit generalizing f s with
  | zero =>
    have hle := RecordSet.size_le_length hf
    omega
  | succ limit ih =>
    rw [rounds]
    cases hsel : R.selectServers (R.nested? budget) q s with
    | none => exact absurd hsel (hselect s hs)
    | some selected =>
      obtain ⟨servers, t⟩ := selected
      obtain ⟨ht, hservers⟩ := hs.of_selectServers hsel
      by_cases htried : servers.all f.tried.contains = true
      · simp [htried]
      · simp only [htried, Bool.false_eq_true, if_false]
        have hrun := run_askServers (R := R) q budget [] servers f t
        cases hask : R.askServers q servers f t with
        | mk ending u =>
          rw [hask] at hrun
          cases ending with
          | finished result => exact Option.some_ne_none _
          | goesOn f' =>
            obtain ⟨steps, hfollows⟩ := Run.follows hrun
            have hnoted := tried_of_askServers hask
            have hgrows := RecordSet.size_lt_insertAll htried
            refine ih (ht.follows hfollows) ?_ ?_
            · intro r hr
              rw [hnoted] at hr
              exact (RecordSet.mem_of_mem_insertAll hr).elim (hf r) (hservers r)
            · rw [hnoted]
              omega

theorem findAddresses_ne_none {budget : Nat}
    (hresolve : ∀ q s, Confined R.client tellable s → R.resolve budget q s ≠ none)
    {recordClass : RecordClass} {nameservers rest : List Record} {s : Session σ}
    (hs : Confined R.client tellable s) :
    R.findAddresses (R.resolve budget) recordClass nameservers rest s ≠ none := by
  induction rest generalizing s with
  | nil => exact Option.some_ne_none _
  | cons ns rest ih =>
    rw [findAddresses]
    cases htarget : ns.target? with
    | none => exact ih hs
    | some target =>
      simp only
      split
      · exact ih hs
      · cases hres : R.resolve budget (.ofText target .a recordClass)
            (s.attempt (.ofText target .a recordClass)) with
        | none => exact absurd hres (hresolve _ _ (hs.attempt _))
        | some r =>
          have ht := (hs.attempt _).of_resolve hres
          obtain ⟨result, t⟩ := r
          cases result with
          | error e => exact ih ht
          | ok found =>
            cases hread : t.knownAddresses (R.now t) nameservers R.useIpv6 with
            | mk usable u =>
              simp only [hread]
              split
              · exact ih (ht.follows (knownAddresses_follows hread).1)
              · exact Option.some_ne_none _

theorem selectServers_ne_none {budget : Nat}
    (hnested : ∀ nested, budget = nested + 1 →
      ∀ q s, Confined R.client tellable s → R.resolve nested q s ≠ none)
    (q : Question) {s : Session σ} (hs : Confined R.client tellable s) :
    R.selectServers (R.nested? budget) q s ≠ none := by
  cases hread : R.readServers q s with
  | mk nameservers read =>
    obtain ⟨servers, t⟩ := read
    rw [selectServers_of_read hread, Ne, Option.map_eq_none_iff]
    split
    · cases budget with
      | zero => exact Option.some_ne_none _
      | succ nested =>
        exact findAddresses_ne_none (hnested nested rfl)
          (hs.follows (readServers_follows hread).1)
    · exact Option.some_ne_none _

theorem resolve_ne_none (hlimit : tellable.length < R.maxRounds) (budget : Nat) (q : Question)
    {s : Session σ} (hs : Confined R.client tellable s) : R.resolve budget q s ≠ none := by
  induction budget using Nat.strongRecOn generalizing q s with
  | ind budget ih =>
    rw [resolve_eq_frame, frame]
    by_cases hsettled : q.isSettledBy (s.answers (R.now s) q).1 = true
    · simp only [hsettled, if_true]
      exact Option.some_ne_none _
    · simp only [hsettled, Bool.false_eq_true, if_false]
      refine rounds_ne_none ?_ (hs.follows (answers_follows s q)) (List.forall_mem_nil _) hlimit
      intro t ht
      refine selectServers_ne_none ?_ q ht
      rintro nested rfl p u hu
      exact ih nested (Nat.lt_succ_self nested) p hu

/-! ### Main result -/

/-- At every point of a lookup: frames are nested no deeper than the budget allows, a question that
has a frame gets no second one, and no question is sent to the same server twice, so that the
exchanges are bounded by what is known. If all that can be told are some records, the lookup ends
within every limit of rounds that is larger than their number and that of the records it begins
with. -/
theorem asks_once_and_ends {q : Question} {s : Session σ} (hwf : s.cache.WellFormed) :
    (∀ a, R.Run (R.start q s) a →
      a.frames.length ≤ R.budget + 1 ∧
      (∀ p budget outer u p' budget' outer' u', a = .opening p budget outer u →
        Relation.TransGen R.Step a (.opening p' budget' outer' u') → p.sameAs p' = false) ∧
      ∃ steps, a.session.history = s.history ++ steps ∧
        R.client.Serves s.client steps a.session.client ∧
        (steps.filterMap LookupStep.exchange?).Nodup ∧
        (steps.filterMap LookupStep.exchange?).length ≤
          (1 + (nameserverTargets (s.cache.records ++ steps.flatMap LookupStep.told)).length) *
            (addressRecords (s.cache.records ++ steps.flatMap LookupStep.told)).length) ∧
    ∀ tellable, R.client.TellsFrom s.client tellable →
      ∃ result t, R.Run (R.start q s) (.closed result [] t) ∧
        ∀ limit, tellable.length + s.cache.recordCount < limit →
          (R.withRounds limit).lookup q s = some (result, t) := by
  constructor
  · intro a hrun
    obtain ⟨steps, hfollows, horderly, hselecting, hsourced⟩ := hrun.account hwf
    refine ⟨horderly.length_frames_le, ?_, steps, hfollows.history, hfollows.served,
      horderly.once, horderly.length_exchanges_le hwf hfollows.served hselecting hsourced⟩
    rintro p budget outer u p' budget' outer' u' rfl hagain
    exact hrun.not_sameAs_of_opening hagain
  · intro tellable htold
    have hends : ∀ limit, tellable.length + s.cache.recordCount < limit →
        ∃ result t, (R.withRounds limit).lookup q s = some (result, t) ∧
          R.Run (R.start q s) (.closed result [] t) := by
      intro limit hlimit
      have hstart : Confined (R.withRounds limit).client (tellable ++ s.cache.records)
          { s with attempted := [q] } := by
        refine ⟨hwf, fun r hr => ⟨r, List.mem_append_right _ hr, rfl⟩, ?_⟩
        intro steps y hserved r hr
        obtain ⟨u, hu, hi⟩ := htold steps y hserved r hr
        exact ⟨u, List.mem_append_left _ hu, hi⟩
      have hne := resolve_ne_none (R := R.withRounds limit)
        (by rwa [List.length_append]) R.budget q hstart
      obtain ⟨⟨result, t⟩, hlookup⟩ := Option.ne_none_iff_exists'.1 hne
      exact ⟨result, t, hlookup, exists_lookup_iff_run.1 ⟨limit, hlookup⟩⟩
    obtain ⟨result, t, -, hend⟩ := hends _ (Nat.lt_succ_self _)
    refine ⟨result, t, hend, ?_⟩
    intro limit hlimit
    obtain ⟨result', t', hlookup, hend'⟩ := hends limit hlimit
    rw [hlookup, hend'.closed_inj hend]

/-! ### Delegations in a circle

The server of the root delegates `y` to a server below `z` and `z` to a server below `y`,
whatever it is asked. -/

namespace Circle

open Crossing (delegation located)
open Glueless (question response)

def delegations : List Record :=
  [delegation "y" "a.z", delegation "z" "b.y"]

def client : Client Unit :=
  .stateless fun _ _ => ⟨.ok (.message (response 0 delegations)), []⟩

def resolver : Resolver Unit :=
  ⟨client, false, 2, 5⟩

def start : Session Unit where
  client := ()
  cache := ({} : Cache).addAll [delegation "" "m", located "m" 1]

theorem tellsFrom_delegations : client.TellsFrom () delegations :=
  Client.tellsFrom_of_told (fun _ _ _ _ r hr => ⟨r, hr, rfl⟩) ()

end Circle

/-- The lookup of `q.y` ends after one exchange, although it may go on for as many rounds as it
likes. Up to four exchanges would be allowed. -/
theorem Circle.ends_after_one_exchange :
    ∃ found t, found.isEmpty = true ∧
      (∀ limit, 4 < limit → (resolver.withRounds limit).lookup (Glueless.question "q.y") start =
        some (.ok found, t)) ∧
      t.history.filterMap LookupStep.asked? = [Glueless.question "q.y"] ∧
      (t.history.filterMap LookupStep.exchange?).Nodup ∧
      (t.history.filterMap LookupStep.exchange?).length ≤ 4 := by
  have hshown : (resolver.lookup (Glueless.question "q.y") start).map
      (fun r => (r.1.toOption.map RecordSet.isEmpty, r.2.history.filterMap LookupStep.asked?,
        r.2.history.flatMap LookupStep.told)) =
      some (some true, [Glueless.question "q.y"], delegations) := by
    decide +kernel
  obtain ⟨hreached, hends⟩ := asks_once_and_ends (R := resolver)
    (q := Glueless.question "q.y") (s := start) (Cache.wellFormed_empty.addAll _)
  obtain ⟨result, t, hrun, hlookup⟩ := hends delegations tellsFrom_delegations
  have hfive : resolver.lookup (Glueless.question "q.y") start = some (result, t) :=
    hlookup 5 (by decide +kernel)
  rw [hfive] at hshown
  simp only [Option.map_some, Option.some.injEq, Prod.mk.injEq] at hshown
  obtain ⟨hok, hasked, htold⟩ := hshown
  obtain ⟨-, -, steps, hhistory, -, honce, hbound⟩ := hreached _ hrun
  obtain rfl : t.history = steps := hhistory
  rw [htold] at hbound
  cases result with
  | error e => cases hok
  | ok found =>
    refine ⟨found, t, Option.some.inj hok, ?_, hasked, honce, hbound.trans (by decide +kernel)⟩
    exact fun limit hlimit => hlookup limit hlimit

end Resolver

end IterativeDns
