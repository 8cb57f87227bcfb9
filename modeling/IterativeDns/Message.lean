import IterativeDns.Record
import IterativeDns.ResponseCode

/-!
# Messages

A message has an ID, flags, at most one question, and records in three sections. The flags
share one sixteen-bit word with the operation code and the response code, four bits each; the
numbers kept here may be larger and are cut when the word is written. Two messages say the same
when header and question agree and their records say the same in the same order.
-/

namespace IterativeDns

/-- The second word of a message header. -/
structure Flags where
  response : Bool := false
  opcode : UInt8 := 0
  authoritative : Bool := false
  truncated : Bool := false
  recursionDesired : Bool := false
  recursionAvailable : Bool := false
  rcode : UInt8 := 0
deriving DecidableEq, Repr, Inhabited

namespace Flags

/-- The word of the flags: from the top one bit, four bits, four bits one by one, three unused
bits and four bits. -/
def word (f : Flags) : UInt16 :=
  .ofNat (f.response.toNat * 0x8000 + f.opcode.toNat % 16 * 0x0800 + f.authoritative.toNat * 0x0400
    + f.truncated.toNat * 0x0200 + f.recursionDesired.toNat * 0x0100
    + f.recursionAvailable.toNat * 0x0080 + f.rcode.toNat % 16)

/-- The bit of a word with the given weight is set. -/
def bit (w : UInt16) (weight : Nat) : Bool :=
  w.toNat / weight % 2 == 1

def ofWord (w : UInt16) : Flags where
  response := bit w 0x8000
  opcode := .ofNat (w.toNat / 0x0800 % 16)
  authoritative := bit w 0x0400
  truncated := bit w 0x0200
  recursionDesired := bit w 0x0100
  recursionAvailable := bit w 0x0080
  rcode := .ofNat (w.toNat % 16)

example : word ⟨true, 0, true, true, false, true, 3⟩ = 0x8683 := by decide
example : ofWord 0x8683 = ⟨true, 0, true, true, false, true, 3⟩ := by decide

/-- The verdict the flags carry. -/
def responseCode (f : Flags) : ResponseCode :=
  .ofNumber f.rcode

end Flags

/-- The record sections of a message. -/
inductive Section where
  | answer | authority | additional
deriving DecidableEq, Repr

namespace Section

/-- The name of a section in a trace. -/
def text : Section → String
  | answer => "answer"
  | authority => "authority"
  | additional => "additional"

/-- The sections in the order of the message. -/
def all : List Section := [answer, authority, additional]

end Section

structure Message where
  id : UInt16
  flags : Flags
  question : Option Question
  answers : List Record
  authorities : List Record
  additionals : List Record
deriving DecidableEq, Repr

namespace Message

/-- A plain query: all flags clear, one question, no records. -/
def query (question : Question) (id : UInt16) : Message :=
  ⟨id, {}, some question, [], [], []⟩

def records (m : Message) : Section → List Record
  | .answer => m.answers
  | .authority => m.authorities
  | .additional => m.additionals

/-- The records of all sections in the order of the message. -/
def allRecords (m : Message) : List Record :=
  m.answers ++ m.authorities ++ m.additionals

/-- The verdict in the header. -/
def responseCode (m : Message) : ResponseCode :=
  m.flags.responseCode

def isResponse (m : Message) : Bool :=
  m.flags.response

/-- What identifies a message: how long its records stay good is not part of it. -/
def identity (m : Message) :=
  (m.id, m.flags, m.question.map Question.key, m.answers.map Record.identity,
    m.authorities.map Record.identity, m.additionals.map Record.identity)

def sameAs (a b : Message) : Bool :=
  a.identity == b.identity

theorem sameAs_iff {a b : Message} : a.sameAs b = true ↔ a.identity = b.identity := by
  simp [sameAs]

end Message

end IterativeDns
