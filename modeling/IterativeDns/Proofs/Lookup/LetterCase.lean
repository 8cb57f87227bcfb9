import IterativeDns.Proofs.Lookup.Simulation

/-!
# Letter case in lookups

Domain names are the same in any letter case, and servers may spell them as they like. A lookup
gives nothing on it: if the question, the owner names in the cache and the owner names in the
responses are spelled in another letter case, the lookup asks the same servers the same questions
and comes to the same result (`letterCase_irrelevant`).

What a record says is another matter. Names in the data of records are compared to the letter, so
they have to be the same on both sides.
-/

namespace IterativeDns

open Alias (SameResult)

/-! ### The same but for letter case -/

/-- Two records differ at most in the letter case of the owner's name and in the TTL they came
with. -/
def Record.SameButCase (r x : Record) : Prop :=
  r.identity = x.identity ∧ r.expires = x.expires

instance (r x : Record) : Decidable (r.SameButCase x) :=
  inferInstanceAs (Decidable (_ ∧ _))

/-- Two caches hold records that differ in letter case alone. -/
def Cache.SameButCase (c d : Cache) : Prop :=
  (∀ r ∈ c.records, ∃ x ∈ d.records, r.SameButCase x) ∧
    ∀ x ∈ d.records, ∃ r ∈ c.records, r.SameButCase x

/-- Two responses have the same verdict, and their records differ in letter case alone. -/
def Message.SameButCase (m m' : Message) : Prop :=
  m.responseCode = m'.responseCode ∧
    ∀ part, List.Forall₂ Record.SameButCase (m.records part) (m'.records part)

/-- Two exchanges ended in the same way, but for letter case. -/
inductive Reply.SameButCase : Except Failure Reply → Except Failure Reply → Prop where
  | error (e : Failure) : SameButCase (.error e) (.error e)
  | silence : SameButCase (.ok .silence) (.ok .silence)
  | message {m m' : Message} (h : m.SameButCase m') :
      SameButCase (.ok (.message m)) (.ok (.message m'))

variable {σ τ : Type}

/-- In states that are tied to each other two clients have outcomes that are the same but for
letter case, if they are asked the same question in any letter case; and their states stay tied. -/
def Client.SameButCase (tied : σ → τ → Prop) (C : Client σ) (C' : Client τ) : Prop :=
  ∀ p q address x y, p.key = q.key → tied x y →
    Reply.SameButCase (C.ask p address x).1.outcome (C'.ask q address y).1.outcome ∧
      tied (C.ask p address x).2 (C'.ask q address y).2

theorem Record.sameButCase_iff {r x : Record} :
    r.SameButCase x ↔ View.caseless.record r = View.caseless.record x :=
  (Prod.mk.injEq ..).to_iff.symm

/-- Responses that are the same but for letter case tell records that are. -/
theorem Message.SameButCase.sameLast {m m' : Message} (h : m.SameButCase m') :
    View.caseless.SameLast m.learnable m'.learnable := by
  have hall : List.Forall₂ Record.SameButCase m.allRecords m'.allRecords :=
    List.rel_append (List.rel_append (h.2 .answer) (h.2 .authority)) (h.2 .additional)
  have htype : ∀ r x : Record, r.SameButCase x →
      (decide (r.recordType ≠ .opt) = true ↔ decide (x.recordType ≠ .opt) = true) := by
    intro r x hrx
    have hsame := Question.recordType_eq_of_key_eq (Record.key_eq_of_identity_eq hrx.1)
    rw [Record.recordType, Record.recordType, hsame]
  exact View.sameLast_of_forall₂
    ((List.rel_filter htype hall).imp fun _ _ => Record.sameButCase_iff.1)

theorem Reply.SameButCase.sameOutcome {outcome outcome' : Except Failure Reply}
    (h : SameButCase outcome outcome') : View.caseless.SameOutcome outcome outcome' := by
  cases h with
  | error e => exact .error e
  | silence => exact .silence
  | message h => exact .message h.1 h.sameLast

namespace Resolver

variable {R : Resolver σ} {R' : Resolver τ} {tied : σ → τ → Prop}

/-! ### Servers that repeat the letter case

A server repeats the name it is asked for as it was spelled. -/

namespace Echo

/-- Every name has the address `10.0.0.9`, and every answer takes 20 milliseconds. -/
def client : Client Instant :=
  .timed fun q _ now => (⟨.ok (.message ⟨0, { response := true }, some q,
    [.learned (now + 20) q 300 (.address (.ofQuad 10 0 0 9))], [], []⟩), []⟩, 20)

def resolver : Resolver Instant :=
  ⟨client, false, 1, 2⟩

/-- A cache that knows a server of a zone. -/
def cache (zone server : String) : Cache :=
  ({} : Cache).addAll [.permanent ⟨zone, .ns, .«in»⟩ (.name "n.u"),
    .permanent ⟨server, .a, .«in»⟩ (.address (.ofQuad 10 0 0 1))]

theorem client_sameButCase : client.SameButCase Eq client := by
  rintro p q address now _ hkey rfl
  refine ⟨.message ⟨rfl, ?_⟩, rfl⟩
  intro part
  cases part with
  | answer => exact .cons ⟨congrArg (·, _) hkey, rfl⟩ .nil
  | authority | additional => exact .nil

end Echo

/-! ### Main result -/

/-- Two lookups of one question, spelled in two ways, with caches and clients that differ in letter
case alone and clocks that show the same: at each point of the one the other is at a point where the
same questions have been put to the same servers and the caches hold the same records but for letter
case; and if one of them has a result so has the other, and it is the same result after the same
calls. -/
theorem letterCase_irrelevant (hclock : ∀ x y, tied x y → R.client.now x = R'.client.now y)
    (hipv6 : R.useIpv6 = R'.useIpv6) (hbudget : R.budget = R'.budget)
    (hclients : R.client.SameButCase tied R'.client)
    {p q : Question} (hq : p.key = q.key) {c d : Cache} (hc : c.WellFormed) (hd : d.WellFormed)
    (hcaches : c.SameButCase d) {x : σ} {y : τ} (htied : tied x y) :
    let s : Session σ := { client := x, cache := c }
    let t : Session τ := { client := y, cache := d }
    (∀ a, R.Run (R.start p s) a → ∃ b, R'.Run (R'.start q t) b ∧ a.Agrees .caseless b) ∧
      (∀ b, R'.Run (R'.start q t) b → ∃ a, R.Run (R.start p s) a ∧ a.Agrees .caseless b) ∧
      (∀ result u, R.Ends p s result u → ∃ result' v, R'.Ends q t result' v ∧
        SameResult result result' ∧ SeenAlike .caseless u v) ∧
      ∀ result' v, R'.Ends q t result' v → ∃ result u, R.Ends p s result u ∧
        SameResult result result' ∧ SeenAlike .caseless u v := by
  intro s t
  have hR : R.Resembles .caseless tied R' := by
    refine ⟨hclock, hipv6, hbudget, ?_⟩
    intro p q address x y hq hxy
    obtain ⟨houtcome, hnext⟩ := hclients p q address x y hq hxy
    exact ⟨houtcome.sameOutcome, hnext⟩
  have hcache : c.Resembles .caseless d := by
    refine ⟨hc, hd, ?_, ?_⟩
    · exact fun r hr => (hcaches.1 r hr).imp fun _ h => ⟨h.1, Record.sameButCase_iff.1 h.2⟩
    · exact fun r hr => (hcaches.2 r hr).imp fun _ h => ⟨h.1, Record.sameButCase_iff.1 h.2⟩
  have hstart : (R.start p s).Resembles .caseless tied (R'.start q t) :=
    start_resembles hR hq ⟨htied, hcache, fun _ => rfl, rfl⟩
  refine ⟨?_, ?_, ?_, ?_⟩
  · intro a ha
    obtain ⟨b, hb, hab⟩ := ha.resembles hR hstart
    exact ⟨b, hb, hab.agrees⟩
  · intro b hb
    obtain ⟨a, ha, hab⟩ := hb.resembles_back hR hstart
    exact ⟨a, ha, hab.agrees⟩
  · intro result u hends
    obtain ⟨result', v, hrun, hsame⟩ := Run.exists_closed hR hstart (exists_lookup_iff_run.1 hends)
    exact ⟨result', v, exists_lookup_iff_run.2 hrun, hsame⟩
  · intro result' v hends
    obtain ⟨result, u, hrun, hsame⟩ :=
      Run.exists_closed_back hR hstart (exists_lookup_iff_run.1 hends)
    exact ⟨result, u, exists_lookup_iff_run.2 hrun, hsame⟩

/-- A name and its zone are spelled in two ways, and the lookups end with the same address. -/
theorem Echo.same_address :
    let p : Question := ⟨"Q.z", .a, .«in»⟩
    let q : Question := ⟨"q.Z", .a, .«in»⟩
    let s : Session Instant := { client := 0, cache := cache "Z" "n.u" }
    let t : Session Instant := { client := 0, cache := cache "z" "N.u" }
    ∃ found u, resolver.Ends p s (.ok found) u ∧
      found.toList = [.learned 20 p 300 (.address (.ofQuad 10 0 0 9))] ∧
      u.calls .caseless = [(q.key, some (.ofQuad 10 0 0 1))] ∧
      ∃ result' v, resolver.Ends q t result' v ∧ SameResult (.ok found) result' ∧
        SeenAlike .caseless u v := by
  intro p q s t
  have hfound : (resolver.lookup p s).map (fun r => r.1.toOption.map RecordSet.toList) =
      some (some [.learned 20 p 300 (.address (.ofQuad 10 0 0 9))]) := by
    decide +kernel
  have hcalled : (resolver.lookup p s).map (fun r => r.2.calls .caseless) =
      some [(View.caseless.question q, some (.ofQuad 10 0 0 1))] := by
    decide +kernel
  obtain ⟨found, u, hends, hlist, hcalls⟩ := exists_ends_of_shown hfound hcalled
  have hcaches : (cache "Z" "n.u").SameButCase (cache "z" "N.u") := by
    unfold Cache.SameButCase
    decide
  have hclients : resolver.client.SameButCase Eq resolver.client := client_sameButCase
  have hsame := letterCase_irrelevant (fun _ _ => congrArg _) rfl rfl hclients (p := p) (q := q)
    (by decide) (Cache.wellFormed_empty.addAll _) (Cache.wellFormed_empty.addAll _) hcaches
    (x := 0) (y := 0) rfl
  exact ⟨found, u, hends, hlist, hcalls, hsame.2.2.1 _ u hends⟩

end Resolver

end IterativeDns
