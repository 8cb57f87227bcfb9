import IterativeDns.Proofs.Cache.Readings
import IterativeDns.Proofs.Lookup.OpenFrames

/-!
# Selections

Between the choice of a delegation and the reading of its servers' addresses whole lookups may be
made, and each of their exchanges changes the cache. The history tells the selections and the
exchanges of all frames in the order in which they happen. This module says what that order is.

* A selection reads the nameservers from the cache it began with, at the instant at which it began,
  and the addresses from the cache it ended with, at the instant at which it ended; what happened in
  between concerns other questions (`SelectedFrom`).
* Whenever a server is asked, the last selection is one for the same question, and the server is
  one of those selected (`InRound`).

`Selecting` is what every step preserves. The frames that wait carry the first half of their
selection with them (`Began`).
-/

namespace IterativeDns.Resolver

variable {σ : Type} {R : Resolver σ}

open Session (Follows)

/-! ### What a selection is -/

/-- How things stood after some steps from a session: the cache held what had been told, and the
client's clock showed the instant. -/
structure StoodAfter (R : Resolver σ) (s : Session σ) (steps : List LookupStep) (x : Snapshot) :
    Prop where
  cache : x.cache.SameButReads (s.cache.addAll (steps.flatMap LookupStep.told))
  now : ∃ y, R.client.Serves s.client steps y ∧ x.now = R.client.now y

theorem stoodAfter_snapshot {s t : Session σ} {steps : List LookupStep}
    (h : s.Follows R.client steps t) : R.StoodAfter s steps (R.snapshot t) :=
  ⟨h.cache, t.client, h.served, rfl⟩

theorem StoodAfter.wellFormed {s : Session σ} {steps : List LookupStep} {x : Snapshot}
    (h : R.StoodAfter s steps x) (hs : s.cache.WellFormed) : x.cache.WellFormed :=
  (hs.addAll _).congr h.cache.entries

theorem StoodAfter.now_le {s : Session σ} {steps later : List LookupStep} {x y : Snapshot}
    (h : R.StoodAfter s steps x) (h' : R.StoodAfter s (steps ++ later) y) : x.now ≤ y.now := by
  obtain ⟨u, hu, hx⟩ := h.now
  obtain ⟨v, hv, hy⟩ := h'.now
  obtain ⟨u', hu', hlater⟩ := hv.exists_of_append
  obtain rfl := hu.inj hu'
  rw [hx, hy]
  exact hlater.now_le

/-- Servers were selected for a question after some steps from the session `s`. -/
structure SelectedFrom (R : Resolver σ) (s : Session σ) (earlier : List LookupStep) (p : Question)
    (before after : Snapshot) (servers : List Record) : Prop where
  /-- Since the selection began there were only steps about other questions. -/
  began : ∃ base nested, earlier = base ++ nested ∧ R.StoodAfter s base before ∧
    ∀ step ∈ nested, step.question.key ≠ p.key
  ended : R.StoodAfter s earlier after
  servers : ∀ server ∈ servers,
    server ∈ (after.cache.knownAddresses after.now (before.cache.bestNameservers before.now p).1
      R.useIpv6).1

/-- A selection ends no earlier than it begins. -/
theorem SelectedFrom.now_le {s : Session σ} {earlier : List LookupStep} {p : Question}
    {before after : Snapshot} {servers : List Record}
    (h : R.SelectedFrom s earlier p before after servers) : before.now ≤ after.now := by
  obtain ⟨base, nested, rfl, hbefore, -⟩ := h.began
  exact hbefore.now_le h.ended

/-- The last selection was for the question, and only this question has been asked since. -/
def InRound (steps : List LookupStep) (p : Question) (servers : List Record) : Prop :=
  ∃ earlier before after between, steps = earlier ++ .selected p before after servers :: between ∧
    ∀ step ∈ between, ∃ server outcome, step = .asked p server outcome

theorem inRound_selected (earlier : List LookupStep) (p : Question) (before after : Snapshot)
    (servers : List Record) : InRound (earlier ++ [.selected p before after servers]) p servers :=
  ⟨earlier, before, after, [], rfl, List.forall_mem_nil _⟩

theorem InRound.asked {steps : List LookupStep} {p : Question} {servers : List Record}
    (h : InRound steps p servers) (server : Record) (outcome : Except Failure Reply) :
    InRound (steps ++ [.asked p server outcome]) p servers := by
  obtain ⟨earlier, before, after, between, rfl, hbetween⟩ := h
  refine ⟨earlier, before, after, between ++ [.asked p server outcome], by simp, ?_⟩
  intro step hstep
  rcases List.mem_append.1 hstep with hstep | hstep
  · exact hbetween step hstep
  · exact ⟨server, outcome, List.mem_singleton.1 hstep⟩

/-- The selection of a frame that waits began after some steps, and since then there were only
steps about other questions. -/
structure Began (R : Resolver σ) (s : Session σ) (steps : List LookupStep) (w : Waiting) :
    Prop where
  since : ∃ base nested, steps = base ++ nested ∧ R.StoodAfter s base w.before ∧
    ∀ step ∈ nested, step.question.key ≠ w.question.key
  nameservers : w.nameservers = (w.before.cache.bestNameservers w.before.now w.question).1
  rest : w.rest ⊆ w.nameservers

section Began

variable {s : Session σ} {steps : List LookupStep} {w : Waiting}

theorem Began.skip (h : R.Began s steps w) {ns : Record} {rest : List Record}
    (hrest : w.rest = ns :: rest) : R.Began s steps { w with rest } :=
  ⟨h.since, h.nameservers, fun _ hr => h.rest (hrest ▸ List.mem_cons_of_mem ns hr)⟩

theorem Began.append (h : R.Began s steps w) {more : List LookupStep}
    (hmore : ∀ step ∈ more, step.question.key ≠ w.question.key) :
    R.Began s (steps ++ more) w := by
  obtain ⟨⟨base, nested, rfl, hbefore, hnested⟩, hnameservers, hrest⟩ := h
  exact ⟨⟨base, nested ++ more, List.append_assoc .., hbefore,
    List.forall_mem_append.2 ⟨hnested, hmore⟩⟩, hnameservers, hrest⟩

/-- A selection that waited ends with servers that are known then. -/
theorem Began.selectedFrom (h : R.Began s steps w) {after : Snapshot} {servers : List Record}
    (hafter : R.StoodAfter s steps after)
    (hservers : ∀ server ∈ servers,
      server ∈ (after.cache.knownAddresses after.now w.nameservers R.useIpv6).1) :
    R.SelectedFrom s steps w.question w.before after servers :=
  ⟨h.since, hafter, h.nameservers ▸ hservers⟩

end Began

/-! ### What every step preserves -/

/-- The servers at hand were selected last, and their question is the only one asked since. -/
def Position.AtHand (steps : List LookupStep) : Position σ → Prop
  | asking q _ stage _ => stage.pending ≠ [] →
      ∃ servers, InRound steps q servers ∧ stage.pending ⊆ servers
  | selected q _ _ servers _ _ => InRound steps q servers
  | _ => True

/-- What is true of the selections and exchanges on the way to a position. -/
structure Selecting (R : Resolver σ) (s : Session σ) (steps : List LookupStep) (a : Position σ) :
    Prop where
  selections : ∀ earlier p before after servers later,
    steps = earlier ++ .selected p before after servers :: later →
    R.SelectedFrom s earlier p before after servers
  exchanges : ∀ earlier p server outcome later,
    steps = earlier ++ .asked p server outcome :: later →
    ∃ servers, InRound earlier p servers ∧ server ∈ servers
  waiting : ∀ w ∈ a.waiting, R.Began s steps w
  atHand : a.AtHand steps

theorem selecting_start (R : Resolver σ) (q : Question) (s : Session σ) :
    R.Selecting s [] (R.start q s) where
  selections := by simp
  exchanges := by simp
  waiting := by simp [start, Position.waiting]
  atHand := trivial

/-- Whoever is asked was selected last, and since then only for the same question. -/
theorem Selecting.exists_selectedFrom {s : Session σ} {steps earlier later : List LookupStep}
    {a : Position σ} (h : R.Selecting s steps a) {p : Question} {server : Record}
    {outcome : Except Failure Reply}
    (hsplit : steps = earlier ++ .asked p server outcome :: later) :
    ∃ prior before after servers between,
      earlier = prior ++ .selected p before after servers :: between ∧
      (∀ step ∈ between, ∃ other outcome, step = .asked p other outcome) ∧
      R.SelectedFrom s prior p before after servers ∧ server ∈ servers := by
  obtain ⟨servers, ⟨prior, before, after, between, rfl, hbetween⟩, hserver⟩ :=
    h.exchanges earlier p server outcome later hsplit
  have hselected := h.selections prior p before after servers
    (between ++ .asked p server outcome :: later) (by rw [hsplit]; simp)
  exact ⟨prior, before, after, servers, between, rfl, hbetween, hselected, hserver⟩

/-- A list cut at an element is cut at the end or before. -/
theorem split_concat {α : Type} {xs earlier later : List α} {x y : α}
    (h : xs ++ [x] = earlier ++ y :: later) :
    xs = earlier ∧ x = y ∨ ∃ rest, xs = earlier ++ y :: rest := by
  rcases List.eq_nil_or_concat later with rfl | ⟨rest, z, rfl⟩
  · obtain ⟨hxs, hx⟩ := List.append_inj' h rfl
    exact .inl ⟨hxs, (List.cons.inj hx).1⟩
  · rw [List.concat_eq_append, ← List.cons_append, ← List.append_assoc] at h
    exact .inr ⟨rest, (List.append_inj' h rfl).1⟩

section Steps

variable {c : Cache} {s₀ : Session σ} {steps : List LookupStep} {a b : Position σ}

/-- Where nothing is added to the history, only what waits and what is at hand matters. -/
theorem Selecting.still (h : R.Selecting s₀ steps a)
    (hwaiting : ∀ w ∈ b.waiting, R.Began s₀ steps w) (hatHand : b.AtHand steps) :
    R.Selecting s₀ (steps ++ []) b := by
  rw [List.append_nil]
  exact ⟨h.selections, h.exchanges, hwaiting, hatHand⟩

theorem Selecting.selected (h : R.Selecting s₀ steps a) {p : Question} {before after : Snapshot}
    {servers : List Record} (hselected : R.SelectedFrom s₀ steps p before after servers)
    (hwaiting : ∀ w ∈ b.waiting, R.Began s₀ (steps ++ [.selected p before after servers]) w)
    (hatHand : b.AtHand (steps ++ [.selected p before after servers])) :
    R.Selecting s₀ (steps ++ [.selected p before after servers]) b := by
  refine ⟨?_, ?_, hwaiting, hatHand⟩
  · intro earlier q before' after' servers' later hsplit
    rcases split_concat hsplit with ⟨rfl, heq⟩ | ⟨rest, hrest⟩
    · cases heq
      exact hselected
    · exact h.selections earlier q before' after' servers' rest hrest
  · intro earlier q server outcome later hsplit
    rcases split_concat hsplit with ⟨-, heq⟩ | ⟨rest, hrest⟩
    · cases heq
    · exact h.exchanges earlier q server outcome rest hrest

theorem Selecting.asked (h : R.Selecting s₀ steps a) {p : Question} {server : Record}
    {outcome : Except Failure Reply} {servers : List Record} (hround : InRound steps p servers)
    (hserver : server ∈ servers)
    (hwaiting : ∀ w ∈ b.waiting, R.Began s₀ (steps ++ [.asked p server outcome]) w)
    (hatHand : b.AtHand (steps ++ [.asked p server outcome])) :
    R.Selecting s₀ (steps ++ [.asked p server outcome]) b := by
  refine ⟨?_, ?_, hwaiting, hatHand⟩
  · intro earlier q before after servers' later hsplit
    rcases split_concat hsplit with ⟨-, heq⟩ | ⟨rest, hrest⟩
    · cases heq
    · exact h.selections earlier q before after servers' rest hrest
  · intro earlier q server' outcome' later hsplit
    rcases split_concat hsplit with ⟨rfl, heq⟩ | ⟨rest, hrest⟩
    · cases heq
      exact ⟨servers, hround, hserver⟩
    · exact h.exchanges earlier q server' outcome' rest hrest

/-- The steps of the innermost frame are not about the questions of those around it. -/
theorem Orderly.began_append (h : R.Orderly steps a) {f : OpenFrame} {outer : List Waiting}
    (ha : a.frames = f :: outer.map Waiting.openFrame)
    (hbegan : ∀ w ∈ outer, R.Began s₀ steps w) {step : LookupStep}
    (hstep : step.question = f.question) : ∀ w ∈ outer, R.Began s₀ (steps ++ [step]) w := by
  intro w hw
  refine (hbegan w hw).append ?_
  rw [List.forall_mem_singleton, hstep]
  have hdistinct := h.distinct
  rw [ha, List.map_cons, List.nodup_cons, List.map_map] at hdistinct
  exact fun hkey => hdistinct.1 (List.mem_map.2 ⟨w, hw, hkey.symm⟩)

theorem readServers_eq {q : Question} {s t : Session σ} {nameservers servers : List Record}
    (h : R.readServers q s = (nameservers, servers, t)) :
    nameservers = (s.cache.bestNameservers (R.now s) q).1 ∧
      servers = (t.cache.knownAddresses (R.now t) nameservers R.useIpv6).1.toList := by
  cases h
  refine ⟨rfl, congrArg RecordSet.toList (Cache.fst_knownAddresses_congr ?_)⟩
  exact (Session.entries_knownAddresses ..).symm

theorem knownAddresses_eq {s t : Session σ} {nameservers servers : List Record}
    (h : s.knownAddresses (R.now s) nameservers R.useIpv6 = (servers, t)) :
    servers = (t.cache.knownAddresses (R.now t) nameservers R.useIpv6).1.toList := by
  cases h
  refine congrArg RecordSet.toList (Cache.fst_knownAddresses_congr ?_)
  exact (Session.entries_knownAddresses ..).symm

theorem Selecting.step (h : R.Selecting s₀ steps a) (horderly : R.Orderly steps a)
    (hfollows : s₀.Follows R.client steps a.session) (hstep : R.Step a b) :
    ∃ more, a.session.Follows R.client more b.session ∧ R.Selecting s₀ (steps ++ more) b := by
  have hhere : R.StoodAfter s₀ steps (R.snapshot a.session) := stoodAfter_snapshot hfollows
  have hread : ∀ {t : Session σ}, a.session.Follows R.client [] t →
      R.StoodAfter s₀ steps (R.snapshot t) := by
    intro t hquiet
    have hthere := stoodAfter_snapshot (hfollows.trans hquiet)
    rwa [List.append_nil] at hthere
  cases hstep with
  | known _ => exact ⟨[], answers_follows _ _, h.still h.waiting trivial⟩
  | unknown _ =>
    exact ⟨[], answers_follows _ _, h.still h.waiting fun hne => absurd rfl hne⟩
  | @select q budget outer f s t nameservers servers hservers _ =>
    obtain ⟨hquiet, -⟩ := readServers_follows hservers
    obtain ⟨rfl, heq⟩ := readServers_eq hservers
    refine ⟨_, hquiet.note q (R.snapshot s) (R.snapshot t) servers, h.selected ?_ ?_ ?_⟩
    · refine ⟨⟨steps, [], (List.append_nil _).symm, hhere, List.forall_mem_nil _⟩,
        hread hquiet, ?_⟩
      intro server hserver
      rw [heq] at hserver
      exact RecordSet.mem_toList.1 hserver
    · exact horderly.began_append rfl h.waiting rfl
    · exact inRound_selected ..
  | seek hservers =>
    obtain ⟨hquiet, -⟩ := readServers_follows hservers
    refine ⟨[], hquiet, h.still (List.forall_mem_cons.2 ⟨?_, h.waiting⟩) trivial⟩
    exact ⟨⟨steps, [], (List.append_nil _).symm, hhere, List.forall_mem_nil _⟩,
      (readServers_eq hservers).1, List.Subset.refl _⟩
  | @giveUp w outer s _ =>
    obtain ⟨hw, houter⟩ := List.forall_mem_cons.1 h.waiting
    refine ⟨_, (Follows.refl s).note w.question w.before (R.snapshot s) [],
      h.selected ?_ ?_ ?_⟩
    · exact hw.selectedFrom hhere (List.forall_mem_nil _)
    · exact horderly.began_append rfl houter rfl
    · exact inRound_selected ..
  | skip hrest _ =>
    obtain ⟨hw, houter⟩ := List.forall_mem_cons.1 h.waiting
    exact ⟨[], .refl _, h.still (List.forall_mem_cons.2 ⟨hw.skip hrest, houter⟩) trivial⟩
  | pass hrest _ _ =>
    obtain ⟨hw, houter⟩ := List.forall_mem_cons.1 h.waiting
    exact ⟨[], .refl _, h.still (List.forall_mem_cons.2 ⟨hw.skip hrest, houter⟩) trivial⟩
  | lookUp hrest _ _ =>
    obtain ⟨hw, houter⟩ := List.forall_mem_cons.1 h.waiting
    exact ⟨[], ⟨(List.append_nil _).symm, rfl, .refl _⟩,
      h.still (List.forall_mem_cons.2 ⟨hw.skip hrest, houter⟩) trivial⟩
  | failed => exact ⟨[], .refl _, h.still h.waiting trivial⟩
  | useless hservers =>
    exact ⟨[], (knownAddresses_follows hservers).1, h.still h.waiting trivial⟩
  | @found _ w outer s t servers hservers _ =>
    obtain ⟨hw, houter⟩ := List.forall_mem_cons.1 h.waiting
    have hquiet := (knownAddresses_follows hservers).1
    refine ⟨_, hquiet.note w.question w.before (R.snapshot t) servers, h.selected ?_ ?_ ?_⟩
    · refine hw.selectedFrom (hread hquiet) ?_
      intro server hserver
      rw [knownAddresses_eq hservers] at hserver
      exact RecordSet.mem_toList.1 hserver
    · exact horderly.began_append rfl houter rfl
    · exact inRound_selected ..
  | exhausted _ => exact ⟨[], answers_follows _ _, h.still h.waiting trivial⟩
  | round _ =>
    exact ⟨[], .refl _, h.still h.waiting fun _ => ⟨_, h.atHand, List.Subset.refl _⟩⟩
  | @ask q budget outer f f' s t server servers hask =>
    obtain ⟨more, hasked, -, hmore, -⟩ := askServers_singleton hask
    obtain ⟨selected, hround, hsub⟩ := h.atHand (List.cons_ne_nil _ _)
    obtain ⟨hserver, hsub⟩ := List.cons_subset.1 hsub
    refine ⟨more, hasked, ?_⟩
    rcases hmore with rfl | ⟨-, outcome, rfl⟩
    · exact h.still h.waiting fun _ => ⟨selected, hround, hsub⟩
    · exact h.asked hround hserver (horderly.began_append rfl h.waiting rfl)
        fun _ => ⟨selected, hround.asked server outcome, hsub⟩
  | @finish q budget outer f s t server servers result hask =>
    obtain ⟨more, hasked, -, hmore, -⟩ := askServers_singleton hask
    obtain ⟨selected, hround, hsub⟩ := h.atHand (List.cons_ne_nil _ _)
    refine ⟨more, hasked, ?_⟩
    rcases hmore with rfl | ⟨-, outcome, rfl⟩
    · exact h.still h.waiting trivial
    · exact h.asked hround (hsub List.mem_cons_self) (horderly.began_append rfl h.waiting rfl)
        trivial

/-! ### Where questions come from -/

/-- The question is that of the lookup, or the one for the address of a nameserver known from the
cache `c` or from some steps. -/
def Named (c : Cache) (q : Question) (steps : List LookupStep) (p : Question) : Prop :=
  p = q ∨ ∃ ns ∈ c.records ++ steps.flatMap LookupStep.told, ns.recordType = .ns ∧
    ∃ target, ns.target? = some target ∧ p = .ofText target .a q.recordClass

theorem Named.append {q p : Question} (h : Named c q steps p) (more : List LookupStep) :
    Named c q (steps ++ more) p := by
  refine h.imp id ?_
  rintro ⟨ns, hns, hrest⟩
  refine ⟨ns, ?_, hrest⟩
  rw [List.flatMap_append, ← List.append_assoc]
  exact List.mem_append_left _ hns

theorem Named.recordClass {q p : Question} (h : Named c q steps p) :
    p.recordClass = q.recordClass := by
  rcases h with rfl | ⟨_, -, -, target, -, hp⟩
  · rfl
  · rw [hp, Question.ofText]

/-- All questions that have a frame, or had a step, are named. -/
structure Sourced (c : Cache) (q : Question) (steps : List LookupStep) (a : Position σ) : Prop where
  frames : ∀ f ∈ a.frames, Named c q steps f.question
  steps : ∀ step ∈ steps, Named c q steps step.question

/-- What a cache holds it held before, or was told. -/
theorem mem_records_of_told (hc : c.WellFormed) {d : Cache} {told : List Record}
    (hd : d.SameButReads (c.addAll told)) {r : Record} (hr : r ∈ d.records) :
    r ∈ c.records ++ told := by
  rw [Cache.records_congr hd.entries, hc.mem_records_addAll] at hr
  rcases hr with hr | ⟨-, hr⟩
  · exact List.mem_append_right _ (Cache.mem_of_latest? hr)
  · exact List.mem_append_left _ hr

theorem told_append_subset {base nested : List LookupStep} {r : Record}
    (hr : r ∈ c.records ++ base.flatMap LookupStep.told) :
    r ∈ c.records ++ (base ++ nested).flatMap LookupStep.told := by
  rw [List.flatMap_append, ← List.append_assoc]
  exact List.mem_append_left _ hr

/-- The nameservers of a selection are known by then. -/
theorem Began.mem_of_mem_rest (hs : s₀.cache.WellFormed) {w : Waiting} (h : R.Began s₀ steps w)
    {ns : Record} (hns : ns ∈ w.rest) :
    ns ∈ s₀.cache.records ++ steps.flatMap LookupStep.told ∧ ns.recordType = .ns := by
  obtain ⟨⟨base, nested, rfl, hbefore, -⟩, hnameservers, hrest⟩ := h
  have hbest := hrest hns
  rw [hnameservers] at hbest
  obtain ⟨_, zone, _, -, -, hlive⟩ := Cache.exists_zone_of_mem_bestNameservers hbest
  obtain ⟨hheld, hkey, -⟩ := (hbefore.wellFormed hs).mem_live.1 hlive
  exact ⟨told_append_subset (mem_records_of_told hs hbefore.cache hheld),
    congrArg (fun key => key.2.1) hkey⟩

theorem Sourced.step {q : Question} (hs : s₀.cache.WellFormed)
    (h : Sourced s₀.cache q steps a) (hselecting : R.Selecting s₀ steps a) {more : List LookupStep}
    (hfollows : a.session.Follows R.client more b.session) (hstep : R.Step a b) :
    Sourced s₀.cache q (steps ++ more) b := by
  obtain ⟨more', hfollows', hturn⟩ := hstep.turn
  obtain rfl : more = more' :=
    List.append_cancel_left (hfollows.history.symm.trans hfollows'.history)
  have hown : ∀ step ∈ more, Named s₀.cache q steps step.question := by
    intro step hmem
    obtain ⟨f, hf, heq⟩ := hturn.own step hmem
    rw [heq]
    exact h.frames f (List.mem_of_mem_head? hf)
  refine ⟨?_, ?_⟩
  · intro g hg
    cases hturn with
    | quiet hframes _ _ => exact (h.frames g (hframes.mem hg)).append more
    | @takesUp f fs server hframe hframes _ _ _ =>
      have hf : Named s₀.cache q steps f.question := h.frames f (hframe ▸ List.mem_cons_self)
      rcases List.mem_cons.1 (hframes.mem hg) with rfl | hg
      · exact hf.append more
      · exact (h.frames g (hframe ▸ List.mem_cons_of_mem f hg)).append more
    | @opens w fs ns target p _ hwaiting hframe hns htarget hp _ hframes _ =>
      have hw : Named s₀.cache q steps w.question :=
        h.frames w.openFrame (hframe ▸ List.mem_cons_self)
      rw [hframes, ← hframe, List.mem_cons] at hg
      rcases hg with rfl | hg
      · obtain ⟨hknown, htype⟩ := (hselecting.waiting w hwaiting).mem_of_mem_rest hs hns
        rw [hw.recordClass] at hp
        exact Named.append (.inr ⟨ns, hknown, htype, target, htarget, hp⟩) more
      · exact (h.frames g hg).append more
  · intro step hmem
    rcases List.mem_append.1 hmem with hmem | hmem
    · exact (h.steps step hmem).append more
    · exact (hown step hmem).append more

end Steps

/-! ### Main result -/

/-- What is known of every point of a lookup, whether the lookup ends or not. -/
theorem Run.account {q : Question} {s : Session σ} {a : Position σ} (hwf : s.cache.WellFormed)
    (h : R.Run (R.start q s) a) :
    ∃ steps, s.Follows R.client steps a.session ∧ R.Orderly steps a ∧
      R.Selecting s steps a ∧ Sourced s.cache q steps a := by
  induction h with
  | refl =>
    refine ⟨[], ⟨(List.append_nil _).symm, rfl, .refl _⟩, orderly_start R q s,
      selecting_start R q s, ?_, List.forall_mem_nil _⟩
    intro f hf
    rw [List.mem_singleton.1 (hf : f ∈ [(⟨q, R.budget, .empty⟩ : OpenFrame)])]
    exact .inl rfl
  | tail _ hstep ih =>
    obtain ⟨steps, hfollows, horderly, hselecting, hsourced⟩ := ih
    obtain ⟨more, hmore, hnext⟩ := hselecting.step horderly hfollows hstep
    obtain ⟨more', hmore', hturn⟩ := hstep.turn
    obtain rfl : more = more' := List.append_cancel_left (hmore.history.symm.trans hmore'.history)
    exact ⟨steps ++ more, hfollows.trans hmore, horderly.turn hturn, hnext,
      hsourced.step hwf hselecting hmore hstep⟩

end IterativeDns.Resolver
