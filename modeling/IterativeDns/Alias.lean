import IterativeDns.Failure
import IterativeDns.Record.Set

/-!
# Following aliases

A lookup may end at an alias: a record that says under which other name the answer is to be
sought. `chase` looks that name up as well, and so on, and returns all records it met.

Every step from an alias to its target takes one unit of a budget. A chase stops with
`Failure.tooManyAliases` when it would have to look up a name with less than nothing left, so it
ends whatever the lookups return; it recurses on how many more names a chain may have.
-/

namespace IterativeDns

/-- A way of looking up questions: no result if a limit of its own was hit, otherwise the records
found or a failure, and the next state. -/
abbrev Look (σ : Type) := Question → σ → Option (Except Failure RecordSet × σ)

namespace Alias

variable {σ : Type}

/-- The name an alias leads to. -/
def target? (r : Record) : Option String :=
  if r.recordType = .cname then r.target? else none

/-- The questions to ask next when an answer to `q` holds nothing but aliases. The alias that
came last is followed first. -/
def successors (q : Question) (found : RecordSet) : List Question :=
  (found.toList.filterMap fun r => (target? r).map q.withName).reverse

/-- Chases questions one after the other, collecting what is found, until one fails. -/
def chaseAll (chase : Question → RecordSet → σ → Option (Except Failure RecordSet × σ)) :
    List Question → RecordSet → σ → Option (Except Failure RecordSet × σ)
  | [], found, s => some (.ok found, s)
  | q :: qs, found, s =>
    match chase q found s with
    | none => none
    | some (.error f, s) => some (.error f, s)
    | some (.ok found, s) => chaseAll chase qs found s

/-- Looks a question up and follows aliases; a chain may have at most `names` names from here on.
`found` is what has been found already. -/
def chaseFrom (look : Look σ) (limit : Int) :
    (names : Nat) → Question → RecordSet → σ → Option (Except Failure RecordSet × σ)
  | 0, _, _, s => some (.error (.tooManyAliases limit), s)
  | names + 1, q, found, s =>
    match look q s with
    | none => none
    | some (.error f, s) => some (.error f, s)
    | some (.ok direct, s) =>
      let found := found.union direct
      if direct.toList.any (·.answers q) then some (.ok found, s)
      else chaseAll (chaseFrom look limit names) (successors q direct) found s

/-- Looks a question up and follows at most `limit` aliases in a row. -/
def chase (look : Look σ) (limit : Int) (q : Question) (s : σ) :
    Option (Except Failure RecordSet × σ) :=
  chaseFrom look limit (limit + 1).toNat q .empty s

end Alias

end IterativeDns
