import IterativeDns.Settings.Resolver
import IterativeDns.Proofs.Cache.Readings
import IterativeDns.Proofs.Cache.RootHints
import IterativeDns.Proofs.Lookup.Positions

/-!
# Where a resolver starts

A resolver made from settings knows its root servers and nothing else. Every question therefore
starts at the root, and the servers that can be asked first are the root servers with an address of
a family that may be used (`Settings.mem_firstServers_iff`).

**Valid settings give a resolver somewhere to start exactly if they name such a root server**
(`Settings.starts_iff_usable_root_server`). Being valid is not enough for that: root servers that
have version 6 addresses only count as root servers, whether such addresses may be used or not.
-/

namespace IterativeDns

/-! ### A cache that knows root hints -/

namespace RootHint

theorem mem_toRecords_iff {h : RootHint} {r : Record} :
    r ∈ h.toRecords ↔ r = h.nameserver ∨ r = h.addressRecord := by
  simp [toRecords]

theorem recordType_addressRecord (h : RootHint) :
    h.addressRecord.question.recordType = if h.address.isV4 then .a else .aaaa := rfl

end RootHint

namespace Cache

theorem wellFormed_ofRootHints (hints : List RootHint) : (ofRootHints hints).WellFormed :=
  wellFormed_empty.addAll _

section RootHints

variable {hints : List RootHint} {now : Instant}

/-- A record of a hint is shown for its question, in some copy. -/
theorem exists_mem_live_ofRootHints (now : Instant) {h : RootHint} (hh : h ∈ hints) {r : Record}
    (hr : r ∈ h.toRecords) :
    ∃ x ∈ (ofRootHints hints).live now r.question, x.identity = r.identity := by
  rw [← RecordSet.contains_iff_exists]
  -- nothing has happened to the cache before it was seeded, and nothing since
  exact (@contains_live_seed_iff [] [] hints now (List.forall_mem_nil _) r
    (List.mem_flatMap.2 ⟨h, hh, hr⟩)).2 nofun

/-- Nothing is shown but records of hints. -/
theorem mem_toRecords_of_mem_live {q : Question} {r : Record}
    (h : r ∈ (ofRootHints hints).live now q) :
    r.question.key = q.key ∧ ∃ hint ∈ hints, r ∈ hint.toRecords := by
  obtain ⟨hlog, hkey, -⟩ :=
    (@mem_live_seed [] [] hints now (List.forall_mem_nil _) q r).1 h
  refine ⟨hkey, List.mem_flatMap.1 ?_⟩
  have hmem := mem_of_latest? hlog
  rwa [show added [] = [] from rfl, List.nil_append, List.append_nil] at hmem

/-- The only delegation is that of the root. -/
theorem nameserver_of_mem_live {q : Question} (hq : q.recordType = .ns) {r : Record}
    (h : r ∈ (ofRootHints hints).live now q) :
    q.key = (Question.root .ns).key ∧ ∃ hint ∈ hints, r = hint.nameserver := by
  obtain ⟨hkey, hint, hhint, hr⟩ := mem_toRecords_of_mem_live h
  rcases RootHint.mem_toRecords_iff.1 hr with rfl | rfl
  · exact ⟨hkey.symm, hint, hhint, rfl⟩
  · have htype : hint.addressRecord.question.recordType = .ns :=
      (congrArg (fun k => k.2.1) hkey).trans hq
    rw [RootHint.recordType_addressRecord] at htype
    split at htype <;> cases htype

/-- The nameservers of every question are those of the root. -/
theorem mem_bestNameservers_ofRootHints {q : Question} (hq : q.recordClass = .«in») {ns : Record} :
    ns ∈ ((ofRootHints hints).bestNameservers now q).1 ↔
      ns ∈ (ofRootHints hints).live now (.root .ns) := by
  have hwf := wellFormed_ofRootHints hints
  rw [fst_bestNameservers, hq]
  split
  · next zone hfind =>
    -- what is shown for the zone that is found shows that the zone is the root
    have hsome := List.find?_some hfind
    rw [Bool.not_eq_true'] at hsome
    obtain ⟨r, hr⟩ := RecordSet.isEmpty_eq_false_iff.1 hsome
    have hroot := (nameserver_of_mem_live rfl hr).1
    rw [byTarget, List.mem_mergeSort, RecordSet.mem_toList, hwf.mem_live, hwf.mem_live, hroot]
  · next hfind =>
    have hnone := List.find?_eq_none.1 hfind "" (root_mem_zones q)
    rw [Bool.not_eq_true', Bool.not_eq_false, ofText_root,
      RecordSet.isEmpty_iff_not_exists] at hnone
    constructor
    · exact fun h => absurd h List.not_mem_nil
    · exact fun h => absurd ⟨ns, h⟩ hnone

end RootHints

end Cache

/-! ### The servers that can be asked first -/

namespace Settings

variable {σ : Type}

theorem IsValid.rootServers_ne_nil {s : Settings} (h : s.IsValid) :
    s.resolver.rootServers ≠ [] := by
  intro hnone
  have hfault : s.fault? ≠ none := by
    unfold fault?
    simp only [hnone]
    split
    · nofun
    · split
      · nofun
      · split <;> nofun
  exact hfault h

/-- The address of the root server is of a family that may be used. -/
def mayAsk (s : Settings) (h : RootHint) : Bool :=
  s.resolver.useIpv6 || h.address.isV4

theorem typeOfAddress_mem_addressTypes_iff {s : Settings} {h : RootHint} :
    Record.typeOfAddress h.address ∈ Cache.addressTypes s.resolver.useIpv6 ↔
      s.mayAsk h = true := by
  unfold Record.typeOfAddress Cache.addressTypes mayAsk
  cases s.resolver.useIpv6 <;> cases h.address.isV4 <;> decide

/-- The servers that a resolver made from settings can ask a question first: what its cache has to
offer before anybody has been asked. -/
def firstServers (s : Settings) (net : Network σ) (time : Timeline) (maxRounds : Nat) (world : σ)
    (q : Question) : List Record :=
  ((s.toResolver net time maxRounds).readServers q (s.startSession world)).2.1

/-- The servers that can be asked first are the usable root servers, each in some copy of its
address record. -/
theorem mem_firstServers_iff {s : Settings} (net : Network σ) (time : Timeline) (maxRounds : Nat)
    (world : σ) {q : Question} (hq : q.recordClass = .«in») {identity} :
    (∃ r ∈ s.firstServers net time maxRounds world q, r.identity = identity) ↔
      ∃ h ∈ s.resolver.rootServers, s.mayAsk h = true ∧ h.addressRecord.identity = identity := by
  have hwf := Cache.wellFormed_ofRootHints s.resolver.rootServers
  have hread :
      ((Cache.ofRootHints s.resolver.rootServers).bestNameservers (time.instant 0) q).2.entries =
        (Cache.ofRootHints s.resolver.rootServers).entries := Cache.entries_bestNameservers ..
  have hmem : ∀ r, r ∈ s.firstServers net time maxRounds world q ↔
      ∃ ns ∈ (Cache.ofRootHints s.resolver.rootServers).live (time.instant 0) (.root .ns),
        ∃ p ∈ Cache.addressQuestions s.resolver.useIpv6 ns,
          r ∈ (Cache.ofRootHints s.resolver.rootServers).live (time.instant 0) p := by
    intro r
    refine (hwf.congr hread).mem_knownAddresses.trans ?_
    simp only [Cache.live_congr hread]
    exact exists_congr fun ns => and_congr_left fun _ => Cache.mem_bestNameservers_ofRootHints hq
  constructor
  · rintro ⟨r, hr, rfl⟩
    obtain ⟨ns, -, p, hp, hlive⟩ := (hmem r).1 hr
    obtain ⟨target, -, t, ht, rfl⟩ := Cache.mem_addressQuestions_iff.1 hp
    obtain ⟨hkey, h, hh, hrecord⟩ := Cache.mem_toRecords_of_mem_live hlive
    have htype : r.recordType = t := congrArg (fun k => k.2.1) hkey
    rcases RootHint.mem_toRecords_iff.1 hrecord with rfl | rfl
    · -- a nameserver record answers no question for an address
      rw [← htype, Cache.mem_addressTypes_iff] at ht
      rcases ht with ht | ⟨ht, -⟩ <;> cases ht
    · rw [← htype] at ht
      exact ⟨h, hh, typeOfAddress_mem_addressTypes_iff.1 ht, rfl⟩
  · rintro ⟨h, hh, hmay, rfl⟩
    obtain ⟨ns, hns, hi⟩ := Cache.exists_mem_live_ofRootHints (time.instant 0) hh
      (RootHint.mem_toRecords_iff.2 (.inl rfl))
    obtain ⟨r, hr, hri⟩ := Cache.exists_mem_live_ofRootHints (time.instant 0) hh
      (RootHint.mem_toRecords_iff.2 (.inr rfl))
    -- the nameserver's name is the text that the address was kept under
    have htarget : ns.target? = some (Name.stripAllDots h.name) :=
      Record.target?_congr hi
    have hclass : ns.question.recordClass = .«in» :=
      congrArg (fun k => k.1.2.2) hi
    refine ⟨r, (hmem r).2 ⟨ns, hns, h.addressRecord.question, ?_, hr⟩, hri⟩
    rw [Cache.mem_addressQuestions_iff, hclass]
    exact ⟨_, htarget, _, typeOfAddress_mem_addressTypes_iff.2 hmay, rfl⟩

/-- A resolver has somewhere to start exactly if it may ask one of its root servers. -/
theorem firstServers_ne_nil_iff {s : Settings} (net : Network σ) (time : Timeline) (maxRounds : Nat)
    (world : σ) {q : Question} (hq : q.recordClass = .«in») :
    s.firstServers net time maxRounds world q ≠ [] ↔
      ∃ h ∈ s.resolver.rootServers, s.mayAsk h = true := by
  constructor
  · intro hne
    obtain ⟨r, hr⟩ := List.exists_mem_of_ne_nil _ hne
    obtain ⟨h, hh, hmay, -⟩ := (mem_firstServers_iff net time maxRounds world hq).1 ⟨r, hr, rfl⟩
    exact ⟨h, hh, hmay⟩
  · rintro ⟨h, hh, hmay⟩
    obtain ⟨r, hr, -⟩ := (mem_firstServers_iff net time maxRounds world hq).2 ⟨h, hh, hmay, rfl⟩
    exact List.ne_nil_of_mem hr

/-! ### Main result -/

/-- Where settings are valid, a resolver made from them has a server that it can ask first, for
every question of the Internet class, exactly if version 6 addresses may be used or a root server
has a version 4 address. The servers it has are then the root servers that may be asked. -/
theorem starts_iff_usable_root_server {s : Settings} (hs : s.IsValid) (net : Network σ)
    (time : Timeline) (maxRounds : Nat) (world : σ) {q : Question} (hq : q.recordClass = .«in») :
    (s.firstServers net time maxRounds world q ≠ [] ↔
      s.resolver.useIpv6 = true ∨ ∃ h ∈ s.resolver.rootServers, h.address.isV4 = true) ∧
    ∀ r, (∃ x ∈ s.firstServers net time maxRounds world q, x.sameAs r = true) ↔
      ∃ h ∈ s.resolver.rootServers, s.mayAsk h = true ∧ h.addressRecord.sameAs r = true := by
  constructor
  · rw [firstServers_ne_nil_iff net time maxRounds world hq]
    cases hv6 : s.resolver.useIpv6 with
    | false => simp [mayAsk, hv6]
    | true =>
      obtain ⟨h, hh⟩ := List.exists_mem_of_ne_nil _ hs.rootServers_ne_nil
      exact iff_of_true ⟨h, hh, by rw [mayAsk, hv6, Bool.true_or]⟩ (.inl rfl)
  · intro r
    simp only [Record.sameAs_iff]
    exact mem_firstServers_iff net time maxRounds world hq

/-! ### Root servers of either version -/

/-- The version 6 address of a root server. -/
def rootAddressV6 : Address :=
  .v6 ⟨#[0x20, 0x01, 0x05, 0x03, 0xba, 0x3e, 0, 0, 0, 0, 0, 0, 0, 0x02, 0, 0x30], rfl⟩

/-- A network that nobody answers in. -/
def deafNetwork : Network Unit where
  chooseId _ := (0, ())
  send _ _ _ := (.ok [], ())
  converse _ _ _ := (⟨0, .error ""⟩, ())

/-- A root server with a version 4 address is enough, with blanks and dots around its name. -/
theorem one_version_four_root_server_starts :
    let s : Settings :=
      { resolver :=
          { rootServers := [⟨"a.root-servers.net", rootAddressV6⟩,
              ⟨" b.root-servers.net..", .ofQuad 170 247 170 2⟩] } }
    s.IsValid ∧ s.firstServers deafNetwork (.since 0) 1 () (.ofText "www.example.com" .a) ≠ [] ∧
      ∃ r ∈ s.firstServers deafNetwork (.since 0) 1 () (.ofText "www.example.com" .a),
        r.sameAs (.permanent (.ofText "b.root-servers.net" .a)
          (.address (.ofQuad 170 247 170 2))) = true := by
  intro s
  have hs : s.IsValid := by decide
  obtain ⟨hstarts, hservers⟩ :=
    starts_iff_usable_root_server hs deafNetwork (.since 0) 1 ()
      (q := .ofText "www.example.com" .a) rfl
  exact ⟨hs, hstarts.2 (.inr (by decide)), (hservers _).2 (by decide)⟩

/-- Where the only root server has a version 6 address and none may be used, valid settings give
nowhere to start. -/
theorem version_six_root_server_is_not_asked :
    let s : Settings := { resolver := { rootServers := [⟨"a.root-servers.net", rootAddressV6⟩] } }
    s.IsValid ∧ s.firstServers deafNetwork (.since 0) 1 () (.ofText "www.example.com" .a) = [] := by
  intro s
  refine ⟨by decide, Classical.not_not.1 fun hstarts => ?_⟩
  obtain ⟨h, hh, hmay⟩ := (firstServers_ne_nil_iff deafNetwork (.since 0) 1 () rfl).1 hstarts
  rw [List.mem_singleton.1 hh] at hmay
  cases hmay

end Settings

end IterativeDns
