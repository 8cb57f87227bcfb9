import IterativeDns.Proofs.Cache.Delegations
import IterativeDns.Proofs.Lookup.Failures
import IterativeDns.Proofs.Lookup.Selections

/-!
# Which servers are asked

Every exchange of a lookup goes to an address of a nameserver of the closest zone around the
question, at each of any number of rounds and at each depth of nesting, whatever the servers have
put into the cache before (`asks_servers_of_closest_zone`). The zone is that of the moment when
the selection began and the address that of the moment when it ended. Nested lookups may be made
between the two, so what is good at the one moment need not be good at the other.

What is good stays good as long as no time passes and nobody tells expired records, so from one
round of a question to the next the zone can then only come nearer.
-/

namespace IterativeDns

namespace Cache

/-- A record that is good has a good copy after others have been added that are good. -/
theorem WellFormed.exists_copy_addAll {c : Cache} (hc : c.WellFormed) {now : Instant}
    {rs : List Record} (hrs : ∀ x ∈ rs, x.isExpired now = false) {r : Record} (hr : r ∈ c.records)
    (hgood : r.isExpired now = false) :
    ∃ x ∈ (c.addAll rs).records, x.identity = r.identity ∧ x.isExpired now = false := by
  cases hlatest : latest? rs r with
  | none => exact ⟨r, hc.mem_records_addAll.2 (.inr ⟨hlatest, hr⟩), rfl, hgood⟩
  | some x =>
    have hi := identity_of_latest? hlatest
    refine ⟨x, hc.mem_records_addAll.2 (.inl ?_), hi, hrs x (mem_of_latest? hlatest)⟩
    rw [latest?_congr rs hi, hlatest]

/-- The zone of a good nameserver record keeps one as long as good records are added. -/
theorem GoodNs.addAll {c d : Cache} (hc : c.WellFormed) {now : Instant} {q : Question}
    {ns : Record} (h : GoodNs now c q ns) {rs : List Record}
    (hrs : ∀ x ∈ rs, x.isExpired now = false) (hd : d.records = (c.addAll rs).records) :
    ∃ r, GoodNs now d q r ∧ Text.lower r.name = Text.lower ns.name := by
  obtain ⟨x, hx, hi, hgood⟩ := hc.exists_copy_addAll hrs h.held h.good
  have hkey := Record.key_eq_of_identity_eq hi
  simp only [Question.key, Prod.mk.injEq] at hkey
  exact ⟨x, ⟨hd ▸ hx, hkey.2.1.trans h.isNs, hkey.2.2.trans h.sameClass, hgood⟩, hkey.1⟩

end Cache

namespace Resolver

variable {σ : Type} {R : Resolver σ}

open Cache (Closest GoodNs)

/-! ### Addresses -/

/-- An address record of a name that a cache holds at an instant at which it is still good: of
version 4, or of version 6 where this may be used. -/
structure AddressOf (R : Resolver σ) (x : Snapshot) (recordClass : RecordClass) (target : String)
    (server : Record) : Prop where
  held : server ∈ x.cache.records
  good : server.isExpired x.now = false
  owner : Text.lower server.name = Text.lower target
  sameClass : server.question.recordClass = recordClass
  version : server.recordType = .a ∨ server.recordType = .aaaa ∧ R.useIpv6 = true

/-- What was selected are addresses of nameservers of the closest zone. -/
theorem SelectedFrom.exists_closest {s : Session σ} (hs : s.cache.WellFormed)
    {earlier : List LookupStep} {p : Question} {before after : Snapshot} {servers : List Record}
    (h : R.SelectedFrom s earlier p before after servers) {server : Record}
    (hserver : server ∈ servers) :
    ∃ ns target, Closest before.now before.cache p ns ∧ ns.target? = some target ∧
      R.AddressOf after p.recordClass (Name.normalize target) server := by
  obtain ⟨base, nested, -, hbefore, -⟩ := h.began
  have hwf := hbefore.wellFormed hs
  have hwf' := h.ended.wellFormed hs
  obtain ⟨ns, hns, a, ha, hlive⟩ := hwf'.mem_knownAddresses.1 (h.servers server hserver)
  obtain ⟨target, htarget, t, ht, rfl⟩ := Cache.mem_addressQuestions_iff.1 ha
  rw [Cache.mem_addressTypes_iff] at ht
  have hclosest := hwf.closest_of_mem_bestNameservers hns
  obtain ⟨hheld, hkey, hgood⟩ := hwf'.mem_live.1 hlive
  simp only [Question.key, Question.ofText, Prod.mk.injEq] at hkey
  refine ⟨ns, target, hclosest, htarget, hheld, hgood, hkey.1, ?_, ?_⟩
  · exact hkey.2.2.trans hclosest.sameClass
  · rw [← show server.recordType = t from hkey.2.1] at ht
    exact ht

end Resolver

/-- Every server that has been asked has an address. -/
theorem Client.Serves.exists_address {σ : Type} {C : Client σ} {earlier later : List LookupStep}
    {x y : σ} {p : Question} {server : Record} {outcome : Except Failure Reply}
    (h : C.Serves x (earlier ++ .asked p server outcome :: later) y) :
    ∃ ip, server.address? = some ip := by
  induction earlier generalizing x with
  | nil =>
    obtain ⟨ip, haddress, -⟩ := h
    exact ⟨ip, haddress⟩
  | cons step earlier ih =>
    cases step with
    | selected => exact ih h
    | asked q x outcome =>
      obtain ⟨_, -, -, hrest⟩ := h
      exact ih hrest

namespace Resolver

variable {σ : Type} {R : Resolver σ} {s : Session σ}

open Cache (Closest GoodNs)

/-- Of two selections for one question the second began with what the first began with and all that
was told in between. -/
theorem SelectedFrom.exists_told {earlier between : List LookupStep} {p : Question}
    {before after before' after' : Snapshot} {servers servers' : List Record}
    (h : R.SelectedFrom s earlier p before after servers)
    (h' : R.SelectedFrom s (earlier ++ .selected p before after servers :: between) p before' after'
      servers') :
    ∃ told, told ⊆ (earlier ++ between).flatMap LookupStep.told ∧
      before'.cache.SameButReads (before.cache.addAll told) := by
  obtain ⟨base, nested, rfl, hbefore, -⟩ := h.began
  obtain ⟨base', nested', hsplit, hbefore', hnested'⟩ := h'.began
  -- the first selection is not among the steps of nested lookups of the second
  have hfirst : .selected p before after servers ∉ nested' :=
    fun hmem => hnested' _ hmem rfl
  obtain ⟨middle, rfl, rest, hrest⟩ : ∃ middle,
      base' = base ++ nested ++ .selected p before after servers :: middle ∧
        ∃ rest, between = middle ++ rest := by
    rcases List.append_eq_append_iff.1 hsplit with ⟨front, hbase, hbehind⟩ | ⟨front, -, hbehind⟩
    · cases front with
      | nil =>
        rw [List.nil_append] at hbehind
        exact absurd (hbehind ▸ List.mem_cons_self) hfirst
      | cons step middle =>
        rw [List.cons_append, List.cons.injEq] at hbehind
        obtain ⟨rfl, hbetween⟩ := hbehind
        exact ⟨middle, hbase, nested', hbetween⟩
    · exact absurd (hbehind ▸ by simp) hfirst
  refine ⟨(nested ++ middle).flatMap LookupStep.told, ?_, ?_⟩
  · subst hrest
    intro r hr
    simp only [List.flatMap_append, List.mem_append] at hr ⊢
    tauto
  · have htold : (base ++ nested ++ .selected p before after servers :: middle).flatMap
        LookupStep.told =
          base.flatMap LookupStep.told ++ (nested ++ middle).flatMap LookupStep.told := by
      simp [LookupStep.told]
    have hcache' := hbefore'.cache
    rw [htold, Cache.addAll_append] at hcache'
    exact hcache'.trans (hbefore.cache.addAll _).symm

/-- From one selection for a question to a later one the closest zone moves no further away, if
neither its nameserver record nor anything that has been told has expired by then. -/
theorem Selecting.labelCount_mono (hs : s.cache.WellFormed)
    {steps earlier between later : List LookupStep} {a : Position σ} (h : R.Selecting s steps a)
    {p : Question} {before after before' after' : Snapshot} {servers servers' : List Record}
    (hsplit : steps = earlier ++ .selected p before after servers :: between ++
      .selected p before' after' servers' :: later)
    (hgood : ∀ r ∈ (earlier ++ between).flatMap LookupStep.told, r.isExpired before'.now = false)
    {ns : Record} (hns : Closest before.now before.cache p ns)
    (hstill : ns.isExpired before'.now = false) :
    (∃ ns', Closest before'.now before'.cache p ns') ∧
      ∀ ns', Closest before'.now before'.cache p ns' →
        Name.labelCount ns.name ≤ Name.labelCount ns'.name := by
  have hfirst := h.selections earlier p before after servers
    (between ++ .selected p before' after' servers' :: later) (by rw [hsplit]; simp)
  have hsecond := h.selections (earlier ++ .selected p before after servers :: between) p
    before' after' servers' later hsplit
  obtain ⟨told, hsub, hbefore'⟩ := hfirst.exists_told hsecond
  obtain ⟨base, nested, -, hbefore, -⟩ := hfirst.began
  have hgoodNs : GoodNs before'.now before.cache p ns := { hns.toGoodNs with good := hstill }
  obtain ⟨r, hr, hname⟩ := hgoodNs.addAll (hbefore.wellFormed hs) (fun x hx => hgood x (hsub hx))
    (Cache.records_congr hbefore'.entries)
  exact hns.labelCount_mono hr hname

/-! ### Main result -/

/-- At every point of a lookup: whoever has been asked has an address of a nameserver of the closest
zone around the question that had a good nameserver record at the instant when the selection began;
the address was good at the instant when the selection ended, however much later that was. Clean
names presupposed, the closest zone is the one with the most labels. As long as no time passes and
nobody has told an expired record, the closest zone of a question never moves further away from one
selection to the next. -/
theorem asks_servers_of_closest_zone {q : Question} {s : Session σ} {a : Position σ}
    (hwf : s.cache.WellFormed) (h : R.Run (R.start q s) a) :
    ∃ steps, a.session.history = s.history ++ steps ∧
      R.client.Serves s.client steps a.session.client ∧
      ((∀ r ∈ s.cache.records ++ steps.flatMap LookupStep.told, r.IsClean) →
        (∀ earlier p server outcome later, steps = earlier ++ .asked p server outcome :: later →
          ∃ prior before after servers between ns target ip,
            earlier = prior ++ .selected p before after servers :: between ∧
            (∀ step ∈ between, ∃ other outcome, step = .asked p other outcome) ∧
            R.SelectedFrom s prior p before after servers ∧ before.now ≤ after.now ∧
            Closest before.now before.cache p ns ∧ ns.target? = some target ∧
            R.AddressOf after p.recordClass target server ∧ server.address? = some ip ∧
            (p = q ∨ Name.IsClean p.name) ∧
            (Name.IsClean p.name →
              Name.lowerLabels ns.name <:+ Name.lowerLabels p.name ∧
                ∀ r, GoodNs before.now before.cache p r →
                  Name.lowerLabels r.name <:+ Name.lowerLabels p.name →
                    Name.labelCount r.name ≤ Name.labelCount ns.name)) ∧
        ∀ earlier p before after servers between before' after' servers' later,
          steps = earlier ++ .selected p before after servers :: between ++
            .selected p before' after' servers' :: later →
          before'.now = before.now →
          (∀ r ∈ (earlier ++ between).flatMap LookupStep.told, r.isExpired before.now = false) →
          ∀ ns, Closest before.now before.cache p ns →
            (∃ ns', Closest before'.now before'.cache p ns') ∧
              ∀ ns', Closest before'.now before'.cache p ns' →
                Name.labelCount ns.name ≤ Name.labelCount ns'.name) := by
  obtain ⟨steps, hfollows, -, hselecting, hsourced⟩ := h.account hwf
  refine ⟨steps, hfollows.history, hfollows.served, ?_⟩
  intro hclean
  constructor
  · intro earlier p server outcome later hsplit
    obtain ⟨prior, before, after, servers, between, rfl, hbetween, hselected, hserver⟩ :=
      hselecting.exists_selectedFrom hsplit
    obtain ⟨ns, target, hclosest, htarget, haddress⟩ := hselected.exists_closest hwf hserver
    obtain ⟨ip, hip⟩ := Client.Serves.exists_address (hsplit ▸ hfollows.served)
    obtain ⟨base, nested, hprior, hbefore, -⟩ := hselected.began
    -- what the cache held when the selection began is among the records that are clean
    have hknown : ∀ r ∈ before.cache.records, r.IsClean := by
      intro r hr
      apply hclean
      rw [hsplit, hprior]
      simp only [List.append_assoc]
      exact told_append_subset (mem_records_of_told hwf hbefore.cache hr)
    have hns := hknown ns hclosest.held
    rw [(hns.target target htarget).normalize_eq] at haddress
    refine ⟨prior, before, after, servers, between, ns, target, ip, rfl, hbetween, hselected,
      hselected.now_le, hclosest, htarget, haddress, hip, ?_, ?_⟩
    · have hnamed := hsourced.steps (.asked p server outcome) (by rw [hsplit]; simp)
      rcases hnamed with hp | ⟨r, hr, -, t, ht, hp⟩
      · exact .inl hp
      · refine .inr ?_
        have htargetClean := (hclean r hr).target t ht
        rw [show p = _ from hp, Question.ofText, htargetClean.normalize_eq]
        exact htargetClean
    · intro hp
      refine ⟨hclosest.isSuffix hp, ?_⟩
      intro r hr hsuffix
      exact hclosest.labelCount_le hp hr (hknown r hr.held).owner hsuffix
  · intro earlier p before after servers between before' after' servers' later hsplit hnow hgood
      ns hns
    rw [← hnow] at hgood
    exact hselecting.labelCount_mono hwf hsplit hgood hns (hnow ▸ hns.good)

/-- The question and the address of the last exchange. -/
def lastAsked (steps : List LookupStep) : Option (Question × Option Address) :=
  steps.getLast?.bind fun
    | .asked q server _ => some (q, server.address?)
    | .selected .. => none

/-- The instants at which the selections for a question began and ended. -/
def selectionTimes (q : Question) (steps : List LookupStep) : List (Instant × Instant) :=
  steps.filterMap fun
    | .selected p before after _ => if p = q then some (before.now, after.now) else none
    | .asked .. => none

/-- For the address of `q.z` a server of `z` is asked, at the address that a nested lookup has made
known. The zone is the closest one when the selection begins, and the address is good when it ends,
which is a second later. -/
theorem Glueless.asked_at_server_of_zone :
    ∃ found t earlier server outcome, ∃ before after : Snapshot, ∃ ns target,
      resolver.lookup (question "q.z") start = some (.ok found, t) ∧
        t.history = earlier ++ [.asked (question "q.z") server outcome] ∧
        before.now = 0 ∧ after.now = 1000 ∧
        Closest before.now before.cache (question "q.z") ns ∧ ns.target? = some target ∧
        resolver.AddressOf after .«in» target server ∧
        server.address? = some (.ofQuad 10 0 0 2) := by
  have hresult : (resolver.lookup (question "q.z") start).map
      (fun r => (r.1.toOption.isSome, lastAsked r.2.history)) =
      some (true, some (question "q.z", some (.ofQuad 10 0 0 2))) := by
    rw [lookup_eq (.inl rfl), rounds, selectServers_opened (.inl rfl)]
    decide +kernel
  have hnoted : (resolver.lookup (question "q.z") start).map
      (fun r => (r.2.history.flatMap LookupStep.told,
        selectionTimes (question "q.z") r.2.history)) =
      some ([Crossing.located "b.u" 2, sought], [(0, 1000)]) := by
    rw [lookup_eq (.inl rfl), rounds, selectServers_opened (.inl rfl)]
    decide +kernel
  obtain ⟨⟨result, t⟩, hlookup, hshown⟩ := Option.map_eq_some_iff.1 hresult
  obtain ⟨hok, hlast⟩ := Prod.mk.inj hshown
  rw [hlookup] at hnoted
  obtain ⟨htold, htimes⟩ := Prod.mk.inj (Option.some.inj hnoted)
  obtain ⟨found, rfl⟩ : ∃ found, result = .ok found := by
    cases result with
    | error e => cases hok
    | ok found => exact ⟨found, rfl⟩
  obtain ⟨step, hstep, hasked⟩ := Option.bind_eq_some_iff.1 hlast
  obtain ⟨earlier, hhistory⟩ := List.getLast?_eq_some_iff.1 hstep
  cases step with
  | selected => cases hasked
  | asked p server outcome =>
    obtain ⟨rfl, hip⟩ := Prod.mk.inj (Option.some.inj hasked)
    obtain ⟨steps, hsteps, -, hclean⟩ :=
      asks_servers_of_closest_zone (Cache.wellFormed_empty.addAll _) (run_of_lookup hlookup)
    have hsteps : t.history = steps := hsteps
    subst hsteps
    rw [htold] at hclean
    obtain ⟨hservers, -⟩ := hclean (by decide +kernel)
    obtain ⟨prior, before, after, servers, between, ns, target, _, rfl, -, -, -, hns, htarget,
      haddress, -⟩ := hservers earlier _ server outcome [] hhistory
    have htime : (before.now, after.now) ∈ selectionTimes (question "q.z") t.history :=
      List.mem_filterMap.2 ⟨.selected (question "q.z") before after servers,
        by rw [hhistory]; simp, if_pos rfl⟩
    rw [htimes, List.mem_singleton, Prod.mk.injEq] at htime
    exact ⟨found, t, _, server, outcome, before, after, ns, target, hlookup, hhistory, htime.1,
      htime.2, hns, htarget, haddress, hip⟩

end Resolver

end IterativeDns
