import IterativeDns.Message
import IterativeDns.Text.Hex
import IterativeDns.Wire.Name
import IterativeDns.Wire.Word

/-!
# Octets as messages

A message is read front to back. Each reader takes the whole message, because names may point
back into it, and the position it is to read from; it returns what it read and the position
after it.

The counts in the header are believed only as far as there are octets: a question needs at
least five and a record at least eleven. Octets after the last record are ignored.

The owner of a question or a record is the name *meant* by its labels (`Question.ofText`); a
name in the data of a record is kept as it stands.
-/

namespace IterativeDns.Wire

/-! ### Fields -/

/-- The given number of octets. -/
def take (message : List UInt8) (length position : Nat) : Except Fault (List UInt8 × Nat) :=
  if message.length < position + length then
    throw (.fieldCutShort length position message.length)
  else return ((message.drop position).take length, position + length)

def takeWord16 (message : List UInt8) (position : Nat) : Except Fault (UInt16 × Nat) :=
  match message.drop position with
  | a :: b :: _ => return (ofOctets16 a b, position + 2)
  | _ => throw (.fieldCutShort 2 position message.length)

def takeWord32 (message : List UInt8) (position : Nat) : Except Fault (UInt32 × Nat) :=
  match message.drop position with
  | a :: b :: c :: d :: _ => return (ofOctets32 a b c d, position + 4)
  | _ => throw (.fieldCutShort 4 position message.length)

/-! ### Questions and records -/

/-- A question: name, type and class. -/
def takeQuestion (message : List UInt8) (position : Nat) : Except Fault (Question × Nat) := do
  let (name, position) ← decodeName message position
  let (recordType, position) ← takeWord16 message position
  let (recordClass, position) ← takeWord16 message position
  return (.ofText name (.ofCode recordType) (.ofCode recordClass), position)

/-- Where the name starts in the data of a record of a type that carries one: after the
preference of an MX record. -/
def nameOffset (recordType : RecordType) : Nat :=
  if recordType = .mx then 2 else 0

/-- An address of the given number of octets. -/
def addressOfSize? (size : Nat) (data : List UInt8) : Option Address :=
  if data.length = size then Address.ofOctets? data else none

/-- The data of a record: `data` are the octets that stand at `position`. An address has the
length of its family. A name must start inside the data of an MX record, and in any case end in
it as it stands; its labels may be elsewhere. The data of every other type stays octets. -/
def decodeData (message : List UInt8) (q : Question) (position : Nat) (data : List UInt8) :
    Except Fault Rdata :=
  let badLength : Fault := .dataLength q.recordType q.name data.length
  match q.recordType with
  | .a =>
    match addressOfSize? 4 data with
    | some ip => return .address ip
    | none => throw badLength
  | .aaaa =>
    match addressOfSize? 16 data with
    | some ip => return .address ip
    | none => throw badLength
  | .ns | .cname | .mx =>
    if q.recordType = .mx ∧ data.length < 3 then throw badLength
    else do
      let start := position + nameOffset q.recordType
      let (target, next) ← decodeName message start
      if position + data.length < next then throw (.nameOverrunsData start)
      else return .name target
  | _ => return .octets (Text.Hex.encode data)

/-- A record: its question, its TTL and its data. -/
def takeRecord (now : Instant) (message : List UInt8) (position : Nat) :
    Except Fault (Record × Nat) := do
  let (q, position) ← takeQuestion message position
  let (ttl, position) ← takeWord32 message position
  let (length, position) ← takeWord16 message position
  let (octets, next) ← take message length.toNat position
  let data ← decodeData message q position octets
  return (.learned now q ttl data, next)

/-- As many things as a count says, one after the other. -/
def takeMany {α : Type} (takeOne : Nat → Except Fault (α × Nat)) :
    (count position : Nat) → Except Fault (List α × Nat)
  | 0, position => return ([], position)
  | count + 1, position => do
    let (x, position) ← takeOne position
    let (xs, position) ← takeMany takeOne count position
    return (x :: xs, position)

/-! ### Messages -/

def headerSize : Nat := 12

def minQuestion : Nat := 5

def minRecord : Nat := 11

/-- The fewest octets of a message with the given counts. -/
def minMessage (questions answers authorities additionals : Nat) : Nat :=
  headerSize + questions * minQuestion + (answers + authorities + additionals) * minRecord

/-- A whole message, received at the instant `now`. Of several questions the first is kept. -/
def decode (now : Instant) (message : List UInt8) : Except Fault Message :=
  if message.length < headerSize then throw (.headerCutShort message.length)
  else do
    let (id, position) ← takeWord16 message 0
    let (flags, position) ← takeWord16 message position
    let (questionCount, position) ← takeWord16 message position
    let (answerCount, position) ← takeWord16 message position
    let (authorityCount, position) ← takeWord16 message position
    let (additionalCount, position) ← takeWord16 message position
    let q := questionCount.toNat
    let an := answerCount.toNat
    let ns := authorityCount.toNat
    let ar := additionalCount.toNat
    if message.length < minMessage q an ns ar then
      throw (.countsOverrun q an ns ar message.length)
    else
      let (questions, position) ← takeMany (takeQuestion message) q position
      let (answers, position) ← takeMany (takeRecord now message) an position
      let (authorities, position) ← takeMany (takeRecord now message) ns position
      let (additionals, _) ← takeMany (takeRecord now message) ar position
      return ⟨id, .ofWord flags, questions.head?, answers, authorities, additionals⟩

/-- The ID and the flags at the front of a message, without reading the rest. -/
def peek : List UInt8 → Option (UInt16 × Flags)
  | a :: b :: c :: d :: _ => some (ofOctets16 a b, .ofWord (ofOctets16 c d))
  | _ => none

end IterativeDns.Wire
