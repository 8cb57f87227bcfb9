import IterativeDns.Cache.RootHints
import IterativeDns.Proofs.Alias.Work
import IterativeDns.Proofs.Exchange.Replies
import IterativeDns.Proofs.Wire.Decoded

/-!
# Payloads

Nothing in a record forces its data to be what its type demands. Still every record of a resolver
is sound (`Record.IsSound`): an address record has an address of its family, a nameserver record,
an alias and a mail exchange have a name, and any other record has octets in plain hexadecimal.
The records of root hints are sound, and so is every record that is read off the wire, whatever
the octets are; and the work of a resolver makes up no others.

**So no record is ever passed over for want of a name or an address**
(`payloads_match_types`): nameservers point at names, servers have addresses of the family of
their type, and aliases lead somewhere.
-/

namespace IterativeDns

open Text.Hex (lowerDigits)

/-! ### Sound records -/

namespace Record

/-- The data is what the type demands. -/
def IsSound (r : Record) : Prop :=
  match r.recordType with
  | .a => ∃ octets, r.data = .address (.v4 octets)
  | .aaaa => ∃ octets, r.data = .address (.v6 octets)
  | .ns | .cname | .mx => ∃ target, r.data = .name target
  | _ => ∃ hex, r.data = .octets hex ∧ hex.toList.length % 2 = 0 ∧ ∀ c ∈ hex.toList, c ∈ lowerDigits

theorem isSound_of_suits {r : Record} (h : r.data.suits r.recordType = true) : r.IsSound := by
  unfold IsSound
  cases hdata : r.data with
  | address ip =>
    rw [hdata] at h
    cases ip <;> cases ht : r.recordType <;> simp_all [Rdata.suits, Address.isV4]
  | name target =>
    rw [hdata] at h
    cases ht : r.recordType <;> simp_all [Rdata.suits, RecordType.carriesName]
  | octets hex =>
    rw [hdata] at h
    cases ht : r.recordType <;>
      simp_all [Rdata.suits, RecordType.carriesName, RecordType.isAddress, Text.Hex.isPlain]

theorem IsSound.exists_target {r : Record} (h : r.IsSound) (hname : r.recordType.carriesName) :
    ∃ target, r.target? = some target := by
  unfold IsSound at h
  cases ht : r.recordType with
  | ns | cname | mx =>
    rw [ht] at h
    obtain ⟨target, hdata⟩ := h
    exact ⟨target, by rw [target?, hdata]⟩
  | _ =>
    rw [ht] at hname
    cases hname

theorem IsSound.exists_address {r : Record} (h : r.IsSound) (haddress : r.recordType.isAddress) :
    ∃ ip, r.address? = some ip ∧ r.recordType = typeOfAddress ip := by
  unfold IsSound at h
  cases ht : r.recordType with
  | a | aaaa =>
    rw [ht] at h
    obtain ⟨octets, hdata⟩ := h
    exact ⟨_, by rw [address?, hdata], rfl⟩
  | _ =>
    rw [ht] at haddress
    cases haddress

end Record

theorem RootHint.isSound_of_mem {h : RootHint} {r : Record} (hr : r ∈ h.toRecords) : r.IsSound := by
  rcases List.mem_cons.1 hr with rfl | hr
  · exact ⟨_, rfl⟩
  · rw [List.mem_singleton.1 hr]
    obtain ⟨name, ip⟩ := h
    cases ip with
    | v4 octets => exact ⟨octets, rfl⟩
    | v6 octets => exact ⟨octets, rfl⟩

/-- A session that knows the records of root hints and nothing else. -/
def Session.seeded {σ : Type} (hints : List RootHint) (client : σ) : Session σ where
  client := client
  cache := .ofRootHints hints

theorem Session.keeps_seeded {σ : Type} (hints : List RootHint) (client : σ) :
    (Session.seeded hints client).Keeps Record.IsSound where
  wellFormed := Cache.wellFormed_empty.addAll _
  cache r hr := by
    have hmem := Resolver.mem_records_of_told Cache.wellFormed_empty (.refl _) hr
    rw [show ({} : Cache).records = [] from rfl, List.nil_append] at hmem
    obtain ⟨h, -, hrecord⟩ := List.mem_flatMap.1 hmem
    exact RootHint.isSound_of_mem hrecord
  history := List.forall_mem_nil _

/-! ### Clients that read -/

/-- Every response of the client has been read off some octets. -/
def Client.Reads {σ : Type} (C : Client σ) : Prop :=
  ∀ q server x m, (C.ask q server x).1.outcome = .ok (.message m) →
    ∃ now octets, Wire.decode now octets = .ok m

theorem Client.Reads.tells {σ : Type} {C : Client σ} (h : C.Reads) : C.Tells Record.IsSound := by
  intro q server x m hm r hr
  obtain ⟨now, octets, hdecode⟩ := h q server x m hm
  exact Record.isSound_of_suits ((Wire.isRead_of_decode hdecode).records r hr).suits

/-- Whatever the network does, responses are read off its octets. -/
theorem Exchange.client_reads {σ : Type} (net : Network σ) (settings : ExchangeSettings)
    (time : Timeline) : (Exchange.client net settings time).Reads := by
  intro q server l m hm
  have hm : (run net settings time q server l).1.outcome = .ok (.message m) := hm
  rcases ending_run net settings time q server l with ⟨id, octets, -, hending⟩ | ⟨-, failure, hfail⟩
  · rw [hm] at hending
    obtain ⟨-, -, ⟨octets, -, hdecode, -⟩ | ⟨reply, -, hdecode⟩⟩ := hending.source
    · exact ⟨_, _, hdecode⟩
    · exact ⟨_, _, hdecode⟩
  · rw [hm] at hfail
    cases hfail

namespace Alias

open Resolver (Position)

variable {σ : Type}

/-! ### Main result -/

/-- At every point of the work of resolvers that begin with root hints and whose clients read what
they are sent: all records are sound. Nameservers that the cache gives point at names, the addresses
it knows are of the family of their types, and what a chase finds is sound. In the lookup that is
under way, the next server has an address, all nameservers that are considered point at names, and
if it has come to its end, all aliases it found lead somewhere. -/
theorem payloads_match_types (hints : List RootHint) (client : σ) {p : Point σ}
    (h : Work Client.Reads (.between [] .empty (.seeded hints client)) p) :
    p.Keeps Record.IsSound ∧
    (∀ now q, ∀ ns ∈ (p.session.cache.bestNameservers now q).1,
      ∃ target, ns.target? = some target) ∧
    (∀ now nameservers useIpv6,
      ∀ r ∈ (p.session.cache.knownAddresses now nameservers useIpv6).1,
        ∃ ip, r.address? = some ip ∧ r.recordType = Record.typeOfAddress ip) ∧
    (∀ R : Resolver σ, R.client.Reads → ∀ limit q found t,
      chase R.lookup limit q p.session = some (.ok found, t) → ∀ r ∈ found, r.IsSound) ∧
    ∀ q names todo found a, p = .during q names todo found a →
      (∀ next budget server pending f s outer,
        a = .asking next budget ⟨server :: pending, f, s⟩ outer →
          ∃ ip, server.address? = some ip) ∧
      (∀ w ∈ a.waiting, ∀ ns ∈ w.nameservers ++ w.rest, ∃ target, ns.target? = some target) ∧
      ∀ direct s, a = .closed (.ok direct) [] s → ∀ r ∈ direct, r.recordType = .cname →
        ∃ target, target? r = some target := by
  have htells : ∀ C : Client σ, C.Reads → C.Tells Record.IsSound := fun _ hC => hC.tells
  have hkeeps : p.Keeps Record.IsSound :=
    h.keeps htells ⟨forall_mem_empty, Session.keeps_seeded hints client⟩
  have hsession := hkeeps.session
  refine ⟨hkeeps, ?_, ?_, ?_, ?_⟩
  · intro now q ns hns
    obtain ⟨hheld, htype⟩ := hsession.wellFormed.mem_of_mem_bestNameservers hns
    exact (hsession.cache ns hheld).exists_target (htype ▸ rfl)
  · intro now nameservers useIpv6 r hr
    obtain ⟨hheld, htype⟩ := hsession.wellFormed.mem_of_mem_knownAddresses hr
    exact (hsession.cache r hheld).exists_address htype
  · intro R hR limit q found t hchase
    have hwork : Work Client.Reads (.between [] .empty p.session) (.between [] found t) :=
      work_of_chase hR hchase
    exact (hwork.keeps htells ⟨forall_mem_empty, hsession⟩).1
  · rintro q names todo found a rfl
    obtain ⟨-, -, hwaiting, hatHand⟩ := hkeeps
    refine ⟨?_, ?_, ?_⟩
    · rintro next budget server pending f s outer rfl
      obtain ⟨hsound, htype⟩ := hatHand.pending server List.mem_cons_self
      obtain ⟨ip, hip, -⟩ := hsound.exists_address htype
      exact ⟨ip, hip⟩
    · intro w hw ns hns
      obtain ⟨hsound, htype⟩ := (List.mem_append.1 hns).elim ((hwaiting w hw).nameservers ns)
        ((hwaiting w hw).rest ns)
      exact hsound.exists_target (htype ▸ rfl)
    · rintro direct s rfl r hr htype
      obtain ⟨target, htarget⟩ := (hatHand direct rfl r hr).exists_target (htype ▸ rfl)
      exact ⟨target, by rw [target?, if_pos htype, htarget]⟩

/-- A message with an alias, an address and a text. -/
def mixed : Message :=
  ⟨7, { response := true, authoritative := true }, none,
    [.learned 0 ⟨"x", .cname, .«in»⟩ 60 (.name "y"),
      .learned 0 ⟨"y", .a, .«in»⟩ 60 (.address (.ofQuad 10 0 0 9))],
    [], [.learned 0 ⟨"y", .txt, .«in»⟩ 60 (.octets "01ab")]⟩

def mixedOctets : List UInt8 :=
  [0, 7, 0x84, 0, 0, 0, 0, 2, 0, 0, 0, 1] ++
    [1, 120, 0, 0, 5, 0, 1, 0, 0, 0, 60, 0, 3, 1, 121, 0] ++
    [1, 121, 0, 0, 1, 0, 1, 0, 0, 0, 60, 0, 4, 10, 0, 0, 9] ++
    [1, 121, 0, 0, 16, 0, 1, 0, 0, 0, 60, 0, 2, 1, 0xAB]

/-- A resolver whose client gives every question the same response. -/
def mixedResolver : Resolver Unit where
  client := .stateless fun _ _ => ⟨.ok (.message mixed), []⟩
  useIpv6 := false
  budget := 2
  maxRounds := 5

theorem mixedResolver_reads : mixedResolver.client.Reads := by
  intro _ _ _ m hm
  cases hm
  exact ⟨0, mixedOctets, by decide +kernel⟩

/-- The chase of `x` follows the alias to `y`, and all that it leaves in the cache is sound. -/
theorem mixed_payloads_match_types :
    let s : Session Unit := .seeded [⟨"root", .ofQuad 10 0 0 1⟩] ()
    ∃ found t, chase mixedResolver.lookup 1 (.ofText "x" .a) s = some (.ok found, t) ∧
      found.toList.map Record.data = [.name "y", .address (.ofQuad 10 0 0 9)] ∧
      t.cache.records.map Record.data =
        [.name "root", .address (.ofQuad 10 0 0 1), .name "y", .address (.ofQuad 10 0 0 9),
          .octets "01ab"] ∧
      ∀ r ∈ t.cache.records, r.IsSound := by
  intro s
  have hresult : (chase mixedResolver.lookup 1 (.ofText "x" .a) s).map (fun r =>
      (r.1.toOption.map fun found => found.toList.map Record.data,
        r.2.cache.records.map Record.data)) =
      some (some [.name "y", .address (.ofQuad 10 0 0 9)],
        [.name "root", .address (.ofQuad 10 0 0 1), .name "y", .address (.ofQuad 10 0 0 9),
          .octets "01ab"]) := by
    decide +kernel
  obtain ⟨⟨result, t⟩, hchase, hshown⟩ := Option.map_eq_some_iff.1 hresult
  obtain ⟨hfound, hcache⟩ := Prod.mk.inj hshown
  cases result with
  | error e => cases hfound
  | ok found =>
    have hwork : Work Client.Reads (.between [] .empty s) (.between [] found t) :=
      work_of_chase mixedResolver_reads hchase
    obtain ⟨⟨-, hkept⟩, -⟩ := payloads_match_types _ () hwork
    exact ⟨found, t, hchase, Option.some.inj hfound, hcache, hkept.cache⟩

end Alias

end IterativeDns
