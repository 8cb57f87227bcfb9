import IterativeDns.Address.Text
import IterativeDns.Question

/-!
# Resource records

A record answers one question with data and is good until an instant, or for ever. What makes
two records the same is the question (letter case aside) and the data, to the letter; how long
they stay good is not part of it, so a record learned again takes the place of the older copy.

Time is never read here: every function that depends on it takes the present instant.
-/

namespace IterativeDns

/-- A point in time, in milliseconds of a clock that only runs forward. -/
abbrev Instant := Int

/-- The data of a record: an address, a name, or octets kept as hexadecimal text. -/
inductive Rdata where
  | address (ip : Address)
  | name (target : String)
  | octets (hex : String)
deriving DecidableEq, Repr

namespace Rdata

/-- The text of the data: the address, the absolute name, or `0x` and the digits. -/
def text : Rdata → String
  | address ip => ip.text
  | name target => target ++ "."
  | octets hex => "0x" ++ hex

end Rdata

structure Record where
  /-- The owner name, type and class. -/
  question : Question
  ttl : UInt32
  data : Rdata
  /-- When the record stops being good; `none` for never. -/
  expires : Option Instant
deriving DecidableEq, Repr

namespace Record

/-! ### Making records -/

/-- A record that is good until a given instant. -/
def goodUntil (question : Question) (ttl : UInt32) (data : Rdata) (expires : Instant) : Record :=
  ⟨question, ttl, data, some expires⟩

/-- A record learned now: it is good for `ttl` seconds. -/
def learned (now : Instant) (question : Question) (ttl : UInt32) (data : Rdata) : Record :=
  .goodUntil question ttl data (now + 1000 * ttl.toNat)

def permanent (question : Question) (data : Rdata) : Record :=
  ⟨question, 4294967295, data, none⟩

/-- The type of the record that holds an address. -/
def typeOfAddress (ip : Address) : RecordType :=
  if ip.isV4 then .a else .aaaa

def ofAddress (now : Instant) (name : String) (ttl : UInt32) (ip : Address) : Record :=
  .learned now (.ofText name (typeOfAddress ip)) ttl (.address ip)

/-- A record learned now that points at a name, written with or without its closing dot. -/
def ofTarget (now : Instant) (name : String) (recordType : RecordType) (ttl : UInt32)
    (target : String) : Record :=
  .learned now (.ofText name recordType) ttl (.name (Name.stripDot target))

/-! ### Reading records -/

def name (r : Record) : String := r.question.name

def recordType (r : Record) : RecordType := r.question.recordType

/-- The address the record holds, if it holds one. -/
def address? (r : Record) : Option Address :=
  match r.data with
  | .address ip => some ip
  | _ => none

/-- The name the record points at, if it points at one. -/
def target? (r : Record) : Option String :=
  match r.data with
  | .name target => some target
  | _ => none

/-- The record is owned by what the question asks for. -/
def answers (r : Record) (q : Question) : Bool :=
  r.question.sameAs q

def isPermanent (r : Record) : Bool :=
  r.expires.isNone

def isExpired (r : Record) (now : Instant) : Bool :=
  match r.expires with
  | some expires => expires ≤ now
  | none => false

/-- The whole seconds for which the record is still good, at most what thirty-two bits hold; a
permanent record keeps its TTL. -/
def remainingTtl (r : Record) (now : Instant) : UInt32 :=
  match r.expires with
  | some expires => UInt32.ofNat (min ((expires - now) / 1000).toNat 4294967295)
  | none => r.ttl

/-! ### Identity -/

/-- What identifies a record. -/
def identity (r : Record) : (List Char × RecordType × RecordClass) × Rdata :=
  (r.question.key, r.data)

def sameAs (a b : Record) : Bool :=
  a.identity == b.identity

theorem sameAs_iff {a b : Record} : a.sameAs b = true ↔ a.identity = b.identity := by
  simp [sameAs]

theorem key_eq_of_identity_eq {a b : Record} (h : a.identity = b.identity) :
    a.question.key = b.question.key :=
  congrArg Prod.fst h

theorem answers_iff {r : Record} {q : Question} :
    r.answers q = true ↔ r.question.key = q.key := by
  simp [answers, Question.sameAs]

/-! ### The line of a record -/

/-- The text followed by blanks up to a width, counted in characters. -/
def column (width : Nat) (s : String) : String :=
  s ++ "".pushn ' ' (width - s.length)

/-- The record as a line of a zone file: owner, seconds left, type and data, the first two in
columns of their own. -/
def line (r : Record) (now : Instant) : String :=
  column 30 (r.name ++ ".") ++ " " ++ column 8 (toString (r.remainingTtl now).toNat) ++ " "
    ++ r.recordType.text ++ " " ++ r.data.text

end Record

end IterativeDns
