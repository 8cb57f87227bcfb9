import IterativeDns.Proofs.Lookup.Likeness

/-!
# Lookups in step

Two lookups that look alike take their steps together. `Position.Resembles` says what two positions
have in common, `Step.resembles` that every step of one lookup has its counterpart in the other,
and `Step.resembles_back` that there are no further steps. Since a lookup that has not ended can
always go on (`exists_step`) and there is one step at most, the two pass through positions that
look alike, side by side.
-/

namespace IterativeDns

/-! ### Steps that are counted -/

section InSteps

variable {α β : Type} {step : α → α → Prop} {step' : β → β → Prop}

/-- So many steps lead from one thing to another. -/
inductive InSteps (step : α → α → Prop) : Nat → α → α → Prop where
  | nil (a : α) : InSteps step 0 a a
  | cons {n : Nat} {a b c : α} (hstep : step a b) (hrest : InSteps step n b c) :
      InSteps step (n + 1) a c

theorem exists_inSteps_iff {a b : α} :
    (∃ n, InSteps step n a b) ↔ Relation.ReflTransGen step a b := by
  constructor
  · rintro ⟨n, h⟩
    induction h with
    | nil => exact .refl
    | cons hstep _ ih => exact .head hstep ih
  · intro h
    induction h using Relation.ReflTransGen.head_induction_on with
    | refl => exact ⟨0, .nil b⟩
    | head hstep _ ih =>
      obtain ⟨n, hrest⟩ := ih
      exact ⟨n + 1, .cons hstep hrest⟩

/-- If single steps can be matched, so can any number of them. -/
theorem InSteps.exists_matching {r : α → β → Prop}
    (hmatch : ∀ {a b : α} {a' : β}, r a a' → step a b → ∃ b', step' a' b' ∧ r b b')
    {n : Nat} {a b : α} {a' : β} (h : r a a') (hsteps : InSteps step n a b) :
    ∃ b', InSteps step' n a' b' ∧ r b b' := by
  induction hsteps generalizing a' with
  | nil => exact ⟨a', .nil a', h⟩
  | cons hstep _ ih =>
    obtain ⟨c, hstep', hc⟩ := hmatch h hstep
    obtain ⟨b', hrest', hb⟩ := ih hc
    exact ⟨b', .cons hstep' hrest', hb⟩

end InSteps

namespace Resolver

open Alias (SameResult)
open Cache (InStep Aligned)

variable {σ τ : Type} {V : View} {tied : σ → τ → Prop} {R : Resolver σ} {R' : Resolver τ}

/-! ### Positions that look alike -/

/-- Frames that wait for the address of a nameserver. -/
structure Waiting.Resembles (V : View) (w w' : Waiting) : Prop where
  question : V.question w.question = V.question w'.question
  budget : w.budget = w'.budget
  frame : w.frame.Alike w'.frame
  nameservers : InStep Record.target? w.nameservers w'.nameservers
  rest : InStep Record.target? w.rest w'.rest

inductive Position.Resembles (V : View) (tied : σ → τ → Prop) :
    Position σ → Position τ → Prop where
  | opening {p q : Question} {budget : Nat} {outer outer' : List Waiting} {s : Session σ}
      {t : Session τ} (hq : V.question p = V.question q) (hs : s.Resembles V tied t)
      (houter : List.Forall₂ (Waiting.Resembles V) outer outer') :
      Position.Resembles V tied (.opening p budget outer s) (.opening q budget outer' t)
  | asking {p q : Question} {budget : Nat} {outer outer' : List Waiting} {a : Stage σ}
      {b : Stage τ} (hq : V.question p = V.question q) (hstage : Stage.Resembles V tied a b)
      (houter : List.Forall₂ (Waiting.Resembles V) outer outer') :
      Position.Resembles V tied (.asking p budget a outer) (.asking q budget b outer')
  | seeking {w w' : Waiting} {outer outer' : List Waiting} {s : Session σ} {t : Session τ}
      (hw : w.Resembles V w') (hs : s.Resembles V tied t)
      (houter : List.Forall₂ (Waiting.Resembles V) outer outer') :
      Position.Resembles V tied (.seeking w outer s) (.seeking w' outer' t)
  | selected {p q : Question} {budget : Nat} {f g : Frame} {servers servers' : List Record}
      {outer outer' : List Waiting} {s : Session σ} {t : Session τ}
      (hq : V.question p = V.question q) (hframe : f.Alike g)
      (hservers : Aligned Record.address? servers servers') (hs : s.Resembles V tied t)
      (houter : List.Forall₂ (Waiting.Resembles V) outer outer') :
      Position.Resembles V tied (.selected p budget f servers outer s)
        (.selected q budget g servers' outer' t)
  | closed {result result' : Except Failure RecordSet} {outer outer' : List Waiting}
      {s : Session σ} {t : Session τ} (hresult : SameResult result result')
      (hs : s.Resembles V tied t) (houter : List.Forall₂ (Waiting.Resembles V) outer outer') :
      Position.Resembles V tied (.closed result outer s) (.closed result' outer' t)

theorem Position.Resembles.session {a : Position σ} {b : Position τ} (h : a.Resembles V tied b) :
    a.session.Resembles V tied b.session := by
  cases h with
  | asking _ hstage _ => exact hstage.session
  | opening _ hs _ | seeking _ hs _ | selected _ _ _ hs _ | closed _ hs _ => exact hs

/-! ### Selections -/

theorem aligned_eq_nil_iff {κ : Type} {key : Record → Option κ} {l l' : List Record}
    (h : Aligned key l l') : l = [] ↔ l' = [] := by
  rw [← List.length_eq_zero_iff, ← List.length_eq_zero_iff, h.2.length_eq]

/-- Of servers that are aligned all have been tried in one lookup if all have in the other. -/
theorem all_tried_eq {f g : Frame} (hframe : f.Alike g) {servers servers' : List Record}
    (h : Aligned Record.address? servers servers') :
    servers.all f.tried.contains = servers'.all g.tried.contains := by
  have htried : ∀ (f : Frame) (servers : List Record), servers.all f.tried.contains = true ↔
      ∀ i ∈ servers.map Record.identity, i ∈ f.tried.toList.map Record.identity := by
    intro f servers
    simp only [List.all_eq_true, RecordSet.contains_iff, List.forall_mem_map]
  rw [Bool.eq_iff_iff, htried, htried]
  simp only [h.1.mem_iff, hframe.tried.perm.mem_iff]

section Selections

variable {s : Session σ} {t : Session τ} {p q : Question}

theorem bestNameservers_resembles (h : s.Resembles V tied t) (now : Instant)
    (hkey : p.key = q.key) :
    Aligned Record.target? (s.bestNameservers now p).1 (t.bestNameservers now q).1 ∧
      (s.bestNameservers now p).2.Resembles V tied (t.bestNameservers now q).2 :=
  ⟨h.cache.bestNameservers hkey,
    h.read (s.cache.entries_bestNameservers now p) (t.cache.entries_bestNameservers now q)⟩

/-- Caches that look alike have the same servers to offer. -/
theorem readServers_resembles (hR : R.Resembles V tied R') (h : s.Resembles V tied t)
    (hkey : p.key = q.key) {nameservers servers : List Record} {u : Session σ}
    (hread : R.readServers p s = (nameservers, servers, u)) :
    ∃ nameservers' servers' u', R'.readServers q t = (nameservers', servers', u') ∧
      Aligned Record.target? nameservers nameservers' ∧
      Aligned Record.address? servers servers' ∧ u.Resembles V tied u' := by
  obtain ⟨hns, hbest⟩ := bestNameservers_resembles h (R.now s) hkey
  obtain ⟨hservers, hknown⟩ := hbest.knownAddresses (R.now s) hns.2 R.useIpv6
  simp only [readServers, now_bestNameservers, ← hR.now_eq h, ← hR.useIpv6] at hread ⊢
  cases hread
  exact ⟨_, _, _, rfl, hns, hservers, hknown⟩

theorem knownAddresses_resembles (hR : R.Resembles V tied R') (h : s.Resembles V tied t)
    {w w' : Waiting} (hw : w.Resembles V w') {servers : List Record} {u : Session σ}
    (hread : s.knownAddresses (R.now s) w.nameservers R.useIpv6 = (servers, u)) :
    ∃ servers' u', t.knownAddresses (R'.now t) w'.nameservers R'.useIpv6 = (servers', u') ∧
      Aligned Record.address? servers servers' ∧ u.Resembles V tied u' := by
  obtain ⟨hservers, hknown⟩ := h.knownAddresses (R.now s) hw.nameservers R.useIpv6
  rw [hread, hR.now_eq h, hR.useIpv6] at hservers hknown
  exact ⟨_, _, rfl, hservers, hknown⟩

end Selections

/-! ### Nameservers to consider -/

section Considering

variable {w w' : Waiting} {ns : Record} {rest : List Record}

/-- Both lookups come to a nameserver, and it is the same one unless neither points at a name. -/
theorem Waiting.Resembles.exists_rest (h : w.Resembles V w') (hrest : w.rest = ns :: rest) :
    ∃ ns' rest', w'.rest = ns' :: rest' ∧
      (ns.identity = ns'.identity ∨ ns.target? = none ∧ ns'.target? = none) ∧
      Waiting.Resembles V { w with rest } { w' with rest := rest' } := by
  have hins := h.rest
  rw [hrest] at hins
  obtain ⟨ns', rest', hns, hrest', heq⟩ := List.forall₂_cons_left_iff.1 hins
  exact ⟨ns', rest', heq, hns, h.question, h.budget, h.frame, h.nameservers, hrest'⟩

/-- A nameserver that points at a name is passed over in both lookups or in neither. -/
theorem pass_eq {s : Session σ} {t : Session τ} (hs : s.Resembles V tied t)
    (hw : w.Resembles V w') {ns' : Record} (hns : ns.identity = ns'.identity) (target : String) :
    (Name.isWithin target ns.name ||
        s.hasAttempted (.ofText target .a w.question.recordClass)) =
      (Name.isWithin target ns'.name ||
        t.hasAttempted (.ofText target .a w'.question.recordClass)) := by
  have hname := Question.lower_eq_of_key_eq (Record.key_eq_of_identity_eq hns)
  have hclass := Question.recordClass_eq_of_key_eq (V.key_eq hw.question)
  rw [Record.name, Record.name, Name.isWithin_congr rfl hname, hs.attempted, hclass]

end Considering

/-! ### Steps -/

/-- What one lookup does the other does as well. -/
theorem Step.resembles (hR : R.Resembles V tied R') {a b : Position σ} {a' : Position τ}
    (h : a.Resembles V tied a') (hstep : R.Step a b) :
    ∃ b', R'.Step a' b' ∧ b.Resembles V tied b' := by
  cases hstep with
  | known hsettled =>
    cases h with
    | opening hq hs houter =>
    obtain ⟨hanswers, hread⟩ := answers_resembles hR hs (V.key_eq hq)
    rw [hanswers.isSettledBy_eq (V.key_eq hq)] at hsettled
    exact ⟨_, .known hsettled, .closed hanswers hread houter⟩
  | unknown hopen =>
    cases h with
    | opening hq hs houter =>
    obtain ⟨hanswers, hread⟩ := answers_resembles hR hs (V.key_eq hq)
    rw [hanswers.isSettledBy_eq (V.key_eq hq)] at hopen
    have hframe : Frame.Alike ⟨_, .empty⟩ ⟨_, .empty⟩ := ⟨hanswers, fun _ => rfl⟩
    exact ⟨_, .unknown hopen, .asking hq (.of_aligned hframe Cache.aligned_nil hread) houter⟩
  | select hread hready =>
    cases h with
    | @asking _ _ _ _ _ _ stage hq hstage houter =>
    obtain ⟨pending, g, t⟩ := stage
    obtain rfl : pending = [] := List.forall₂_nil_left_iff.1 hstage.pending
    obtain ⟨_, _, _, hread', -, hservers, hu⟩ :=
      readServers_resembles hR hstage.session (V.key_eq hq) hread
    have hready' := hready.imp_left (mt (aligned_eq_nil_iff hservers).2)
    exact ⟨_, .select hread' hready', .selected hq hstage.frame_alike hservers hu.select houter⟩
  | seek hread =>
    cases h with
    | @asking _ _ _ _ _ _ stage hq hstage houter =>
    obtain ⟨pending, g, t⟩ := stage
    obtain rfl : pending = [] := List.forall₂_nil_left_iff.1 hstage.pending
    obtain ⟨_, servers', _, hread', hns, hservers, hu⟩ :=
      readServers_resembles hR hstage.session (V.key_eq hq) hread
    obtain rfl : servers' = [] := (aligned_eq_nil_iff hservers).1 rfl
    exact ⟨_, .seek hread', .seeking ⟨hq, rfl, hstage.frame_alike, hns.2, hns.2⟩ hu houter⟩
  | giveUp hrest =>
    cases h with
    | seeking hw hs houter =>
    have hrest' := hw.rest
    rw [hrest] at hrest'
    refine ⟨_, .giveUp (List.forall₂_nil_left_iff.1 hrest'), ?_⟩
    rw [hw.budget]
    exact .selected hw.question hw.frame Cache.aligned_nil hs.select houter
  | skip hrest htarget =>
    cases h with
    | seeking hw hs houter =>
    obtain ⟨ns', rest', hrest', hns, hw'⟩ := hw.exists_rest hrest
    have htarget' : ns'.target? = none := by
      rcases hns with hi | ⟨-, hnone⟩
      · rw [← Record.target?_congr hi, htarget]
      · exact hnone
    exact ⟨_, .skip hrest' htarget', .seeking hw' hs houter⟩
  | pass hrest htarget hpass =>
    cases h with
    | seeking hw hs houter =>
    obtain ⟨ns', rest', hrest', hns, hw'⟩ := hw.exists_rest hrest
    have hi := hns.resolve_right fun hnone => by rw [htarget] at hnone; cases hnone.1
    rw [pass_eq hs hw hi] at hpass
    exact ⟨_, .pass hrest' (Record.target?_congr hi ▸ htarget) hpass, .seeking hw' hs houter⟩
  | @lookUp w _ _ _ _ target hrest htarget hnew =>
    cases h with
    | @seeking _ w' _ _ _ _ hw hs houter =>
    obtain ⟨ns', rest', hrest', hns, hw'⟩ := hw.exists_rest hrest
    have hi := hns.resolve_right fun hnone => by rw [htarget] at hnone; cases hnone.1
    have hclass := Question.recordClass_eq_of_key_eq (V.key_eq hw.question)
    rw [pass_eq hs hw hi] at hnew
    refine ⟨_, .lookUp hrest' (Record.target?_congr hi ▸ htarget) hnew, ?_⟩
    rw [hclass]
    obtain ⟨_, budget, _, _, _, _⟩ := w'
    obtain rfl : w.budget = budget := hw.budget
    exact .opening rfl (hs.attempt rfl) (.cons hw' houter)
  | failed =>
    cases h with
    | @closed _ result' _ _ _ _ hresult hs houter =>
    obtain ⟨w', outer', hw, houter', rfl⟩ := List.forall₂_cons_left_iff.1 houter
    cases result' with
    | ok _ => exact hresult.elim
    | error e => exact ⟨_, .failed, .seeking hw hs houter'⟩
  | useless hread =>
    cases h with
    | @closed _ result' _ _ _ _ hresult hs houter =>
    obtain ⟨w', outer', hw, houter', rfl⟩ := List.forall₂_cons_left_iff.1 houter
    obtain ⟨servers', _, hread', hservers, hu⟩ := knownAddresses_resembles hR hs hw hread
    obtain rfl : servers' = [] := (aligned_eq_nil_iff hservers).1 rfl
    cases result' with
    | error _ => exact hresult.elim
    | ok _ => exact ⟨_, .useless hread', .seeking hw hu houter'⟩
  | found hread hsome =>
    cases h with
    | @closed _ result' _ _ _ _ hresult hs houter =>
    obtain ⟨w', outer', hw, houter', rfl⟩ := List.forall₂_cons_left_iff.1 houter
    obtain ⟨servers', _, hread', hservers, hu⟩ := knownAddresses_resembles hR hs hw hread
    have hsome' := mt (aligned_eq_nil_iff hservers).2 hsome
    cases result' with
    | error _ => exact hresult.elim
    | ok _ =>
      refine ⟨_, .found hread' hsome', ?_⟩
      rw [hw.budget]
      exact .selected hw.question hw.frame hservers hu.select houter'
  | exhausted htried =>
    cases h with
    | selected hq hframe hservers hs houter =>
    obtain ⟨hanswers, hread⟩ := answers_resembles hR hs (V.key_eq hq)
    rw [all_tried_eq hframe hservers] at htried
    exact ⟨_, .exhausted htried, .closed (hframe.answers.union hanswers) hread houter⟩
  | round huntried =>
    cases h with
    | selected hq hframe hservers hs houter =>
    rw [all_tried_eq hframe hservers] at huntried
    exact ⟨_, .round huntried, .asking hq (.of_aligned hframe hservers hs) houter⟩
  | @ask _ _ _ _ _ _ _ server servers hask =>
    cases h with
    | @asking _ q _ _ _ _ stage hq hstage houter =>
    obtain ⟨pending, g, t⟩ := stage
    obtain ⟨server', servers', -, -, rfl⟩ := List.forall₂_cons_left_iff.1 hstage.pending
    have hends := askServers_resembles hR hq hstage
    rw [hask] at hends
    cases hask' : R'.askServers q [server'] g t with
    | mk ending u =>
    rw [hask'] at hends
    cases hends with
    | goesOn hstage' => exact ⟨_, .ask hask', .asking hq hstage' houter⟩
  | @finish _ _ _ _ _ _ server servers _ hask =>
    cases h with
    | @asking _ q _ _ _ _ stage hq hstage houter =>
    obtain ⟨pending, g, t⟩ := stage
    obtain ⟨server', servers', -, -, rfl⟩ := List.forall₂_cons_left_iff.1 hstage.pending
    have hends := askServers_resembles hR hq hstage
    rw [hask] at hends
    cases hask' : R'.askServers q [server'] g t with
    | mk ending u =>
    rw [hask'] at hends
    cases hends with
    | finished hresult hs => exact ⟨_, .finish hask', .closed hresult hs houter⟩

/-- A lookup that has not ended goes on. -/
theorem exists_step (R : Resolver σ) (a : Position σ) :
    (∃ result s, a = .closed result [] s) ∨ ∃ b, R.Step a b := by
  cases a with
  | opening q budget outer s =>
    by_cases hsettled : q.isSettledBy (s.answers (R.now s) q).1 = true
    · exact .inr ⟨_, .known hsettled⟩
    · exact .inr ⟨_, .unknown hsettled⟩
  | asking q budget stage outer =>
    obtain ⟨pending, f, s⟩ := stage
    cases pending with
    | nil =>
      cases hread : R.readServers q s with
      | mk nameservers read =>
      obtain ⟨servers, t⟩ := read
      cases servers with
      | cons server servers => exact .inr ⟨_, .select hread (.inl (List.cons_ne_nil _ _))⟩
      | nil =>
        cases budget with
        | zero => exact .inr ⟨_, .select hread (.inr rfl)⟩
        | succ budget => exact .inr ⟨_, .seek hread⟩
    | cons server servers =>
      cases hask : R.askServers q [server] f s with
      | mk ending t =>
      cases ending with
      | goesOn f' => exact .inr ⟨_, .ask hask⟩
      | finished result => exact .inr ⟨_, .finish hask⟩
  | seeking w outer s =>
    cases hrest : w.rest with
    | nil => exact .inr ⟨_, .giveUp hrest⟩
    | cons ns rest =>
      cases htarget : ns.target? with
      | none => exact .inr ⟨_, .skip hrest htarget⟩
      | some target =>
        cases hpass : Name.isWithin target ns.name ||
            s.hasAttempted (.ofText target .a w.question.recordClass) with
        | true => exact .inr ⟨_, .pass hrest htarget hpass⟩
        | false => exact .inr ⟨_, .lookUp hrest htarget hpass⟩
  | selected q budget f servers outer s =>
    by_cases htried : servers.all f.tried.contains = true
    · exact .inr ⟨_, .exhausted htried⟩
    · exact .inr ⟨_, .round htried⟩
  | closed result outer s =>
    cases outer with
    | nil => exact .inl ⟨result, s, rfl⟩
    | cons w outer =>
      cases result with
      | error e => exact .inr ⟨_, .failed⟩
      | ok found =>
        cases hread : s.knownAddresses (R.now s) w.nameservers R.useIpv6 with
        | mk servers t =>
        by_cases hsome : servers = []
        · exact .inr ⟨_, .useless (hsome ▸ hread)⟩
        · exact .inr ⟨_, .found hread hsome⟩

/-- What the other lookup does this one does as well. -/
theorem Step.resembles_back (hR : R.Resembles V tied R') {a : Position σ} {a' b' : Position τ}
    (h : a.Resembles V tied a') (hstep : R'.Step a' b') :
    ∃ b, R.Step a b ∧ b.Resembles V tied b' := by
  rcases R.exists_step a with ⟨result, s, rfl⟩ | ⟨b, hb⟩
  · cases h with
    | closed _ _ houter =>
    rw [List.forall₂_nil_left_iff.1 houter] at hstep
    exact absurd hstep not_step_closed
  · obtain ⟨c, hc, hbc⟩ := hb.resembles hR h
    exact ⟨b, hb, hstep.deterministic hc ▸ hbc⟩

/-! ### Runs -/

/-- Where two lookups start. -/
theorem start_resembles (hR : R.Resembles V tied R') {p q : Question}
    (hq : V.question p = V.question q) {s : Session σ} {t : Session τ}
    (h : s.Resembles V tied t) : (R.start p s).Resembles V tied (R'.start q t) := by
  rw [start, start, hR.budget]
  refine .opening hq ⟨h.client, h.cache, ?_, h.calls⟩ .nil
  intro r
  rw [Session.hasAttempted_singleton, Session.hasAttempted_singleton, Bool.eq_iff_iff,
    Question.sameAs_iff, Question.sameAs_iff, V.key_eq hq]

/-- If a lookup ends, any steps of it are the first ones to its end. -/
theorem closed_of_inSteps {n length : Nat} {a b : Position σ} {result : Except Failure RecordSet}
    {s : Session σ} (hend : InSteps R.Step length a (.closed result [] s))
    (h : InSteps R.Step n a b) :
    ∃ left, n + left = length ∧ InSteps R.Step left b (.closed result [] s) := by
  induction h generalizing length with
  | nil => exact ⟨length, Nat.zero_add length, hend⟩
  | @cons n _ _ _ hstep _ ih =>
    cases hend with
    | nil => exact absurd hstep not_step_closed
    | cons hstep' hrest' =>
      obtain ⟨left, hlength, hleft⟩ := ih (hstep.deterministic hstep' ▸ hrest')
      exact ⟨left, by omega, hleft⟩

theorem inSteps_resembles (hR : R.Resembles V tied R') {n : Nat} {a b : Position σ}
    {a' : Position τ} (h : a.Resembles V tied a') (hsteps : InSteps R.Step n a b) :
    ∃ b', InSteps R'.Step n a' b' ∧ b.Resembles V tied b' :=
  hsteps.exists_matching (fun h hstep => hstep.resembles hR h) h

theorem Run.resembles (hR : R.Resembles V tied R') {a b : Position σ} {a' : Position τ}
    (h : a.Resembles V tied a') (hrun : R.Run a b) :
    ∃ b', R'.Run a' b' ∧ b.Resembles V tied b' := by
  obtain ⟨n, hsteps⟩ := exists_inSteps_iff.2 hrun
  obtain ⟨b', hsteps', hb⟩ := inSteps_resembles hR h hsteps
  exact ⟨b', exists_inSteps_iff.1 ⟨n, hsteps'⟩, hb⟩

theorem Run.resembles_back (hR : R.Resembles V tied R') {a : Position σ} {a' b' : Position τ}
    (h : a.Resembles V tied a') (hrun : R'.Run a' b') :
    ∃ b, R.Run a b ∧ b.Resembles V tied b' := by
  obtain ⟨n, hsteps'⟩ := exists_inSteps_iff.2 hrun
  obtain ⟨b, hsteps, hb⟩ := hsteps'.exists_matching
    (r := fun b' (b : Position σ) => b.Resembles V tied b')
    (fun h hstep => hstep.resembles_back hR h) h
  exact ⟨b, exists_inSteps_iff.1 ⟨n, hsteps⟩, hb⟩

/-! ### What can be seen -/

/-- What can be seen of two sessions is the same: which questions have been put to which servers,
and what the caches hold. -/
structure SeenAlike (V : View) (s : Session σ) (t : Session τ) : Prop where
  calls : s.calls V = t.calls V
  held : ∀ k, k ∈ s.cache.records.map V.record ↔ k ∈ t.cache.records.map V.record

/-- The result of a lookup at the position where it ends. -/
def Position.result? : Position σ → Option (Except Failure RecordSet)
  | closed result [] _ => some result
  | _ => none

theorem Position.exists_of_result? {a : Position σ} {result : Except Failure RecordSet}
    (h : a.result? = some result) : ∃ s, a = .closed result [] s := by
  cases a with
  | closed result' outer s =>
    cases outer with
    | nil =>
      cases h
      exact ⟨s, rfl⟩
    | cons _ _ => cases h
  | opening _ _ _ _ | asking _ _ _ _ | seeking _ _ _ | selected _ _ _ _ _ _ => cases h

/-- Two lookups look the same from outside, and if they have ended they have the same result. -/
structure Position.Agrees (V : View) (a : Position σ) (b : Position τ) : Prop where
  session : SeenAlike V a.session b.session
  result : Option.Rel SameResult a.result? b.result?

theorem Position.Resembles.agrees {a : Position σ} {b : Position τ} (h : a.Resembles V tied b) :
    a.Agrees V b := by
  refine ⟨⟨h.session.calls, ?_⟩, ?_⟩
  · intro k
    rw [List.mem_map, List.mem_map]
    constructor
    · rintro ⟨r, hr, rfl⟩
      exact (h.session.cache.forth r hr).imp fun _ h => ⟨h.1, h.2.symm⟩
    · rintro ⟨x, hx, rfl⟩
      exact h.session.cache.back x hx
  · cases h with
    | closed hresult _ houter =>
      cases houter with
      | nil => exact .some hresult
      | cons _ _ => exact .none
    | opening _ _ _ | asking _ _ _ | seeking _ _ _ | selected _ _ _ _ _ => exact .none

/-- What agrees with the end of a lookup is the end of one. -/
theorem Position.Agrees.exists_closed {result : Except Failure RecordSet} {s : Session σ}
    {b : Position τ} (h : (Position.closed result [] s).Agrees V b) :
    ∃ result' t, b = .closed result' [] t ∧ SameResult result result' ∧ SeenAlike V s t := by
  obtain ⟨hsession, hresult⟩ := h
  generalize hb : b.result? = result? at hresult
  cases hresult with
  | some hsame =>
    obtain ⟨t, rfl⟩ := Position.exists_of_result? hb
    exact ⟨_, t, rfl, hsame, hsession⟩

theorem Position.Agrees.exists_closed_back {result' : Except Failure RecordSet} {t : Session τ}
    {a : Position σ} (h : a.Agrees V (Position.closed result' [] t)) :
    ∃ result s, a = .closed result [] s ∧ SameResult result result' ∧ SeenAlike V s t := by
  obtain ⟨hsession, hresult⟩ := h
  generalize ha : a.result? = result? at hresult
  cases hresult with
  | some hsame =>
    obtain ⟨s, rfl⟩ := Position.exists_of_result? ha
    exact ⟨_, s, rfl, hsame, hsession⟩

/-- An end that is ahead of a position is ahead of its counterpart. -/
theorem Run.exists_closed (hR : R.Resembles V tied R') {a : Position σ} {a' : Position τ}
    (h : a.Resembles V tied a') {result : Except Failure RecordSet} {s : Session σ}
    (hrun : R.Run a (.closed result [] s)) :
    ∃ result' t, R'.Run a' (.closed result' [] t) ∧ SameResult result result' ∧
      SeenAlike V s t := by
  obtain ⟨b', hrun', hb⟩ := hrun.resembles hR h
  obtain ⟨result', t, rfl, hsame⟩ := hb.agrees.exists_closed
  exact ⟨result', t, hrun', hsame⟩

theorem Run.exists_closed_back (hR : R.Resembles V tied R') {a : Position σ} {a' : Position τ}
    (h : a.Resembles V tied a') {result' : Except Failure RecordSet} {t : Session τ}
    (hrun : R'.Run a' (.closed result' [] t)) :
    ∃ result s, R.Run a (.closed result [] s) ∧ SameResult result result' ∧
      SeenAlike V s t := by
  obtain ⟨b, hrun', hb⟩ := hrun.resembles_back hR h
  obtain ⟨result, s, rfl, hsame⟩ := hb.agrees.exists_closed_back
  exact ⟨result, s, hrun', hsame⟩

/-- A lookup has a result if it is allowed enough rounds. -/
def Ends (R : Resolver σ) (q : Question) (s : Session σ) (result : Except Failure RecordSet)
    (t : Session σ) : Prop :=
  ∃ limit, (R.withRounds limit).lookup q s = some (result, t)

/-- A lookup that shows some records as its result has ended with them. -/
theorem exists_ends_of_shown {q : Question} {s : Session σ} {rs : List Record}
    {calls : List (V.QuestionView × Option Address)}
    (hfound : (R.lookup q s).map (fun r => r.1.toOption.map RecordSet.toList) = some (some rs))
    (hcalls : (R.lookup q s).map (fun r => r.2.calls V) = some calls) :
    ∃ found t, R.Ends q s (.ok found) t ∧ found.toList = rs ∧ t.calls V = calls := by
  obtain ⟨⟨result, t⟩, hlookup, hshown⟩ := Option.map_eq_some_iff.1 hfound
  obtain ⟨found, hok, hlist⟩ := Option.map_eq_some_iff.1 hshown
  rw [hlookup] at hcalls
  cases result with
  | error e => cases hok
  | ok found' =>
    cases hok
    exact ⟨found, t, ⟨R.maxRounds, hlookup⟩, hlist, Option.some.inj hcalls⟩

end Resolver

end IterativeDns
