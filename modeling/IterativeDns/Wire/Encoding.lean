import IterativeDns.Message
import IterativeDns.Text.Hex
import IterativeDns.Wire.Name
import IterativeDns.Wire.Word

/-!
# Messages as octets

A message is written as a header of twelve octets (ID, flags and four counts), its question and
its records section by section. Names are never compressed. The data of a record is written
after its length; the data of an MX record starts with a preference, which is always zero here.
-/

namespace IterativeDns.Wire

def encodeCount (records : List Record) : Except Fault (List UInt8) :=
  if 65535 < records.length then throw .tooManyRecords
  else return word16 (.ofNat records.length)

/-- A question: name, type and class. -/
def encodeQuestion (q : Question) : Except Fault (List UInt8) := do
  let name ← encodeName q.name
  return name ++ word16 q.recordType.code ++ word16 q.recordClass.code

/-- What stands before the name in the data of a record: the preference of an MX record. -/
def namePreamble (recordType : RecordType) : List UInt8 :=
  if recordType = .mx then word16 0 else []

/-- The data of a record without its length. -/
def encodeData (r : Record) : Except Fault (List UInt8) :=
  match r.data with
  | .address ip => return ip.octets
  | .name target => return namePreamble r.recordType ++ (← encodeName target)
  | .octets hex =>
    match Text.Hex.decode? hex with
    | some octets => return octets
    | none => throw (.dataNotHex r.name)

/-- Octets after their length as a sixteen-bit word. -/
def encodeSized (r : Record) (octets : List UInt8) : Except Fault (List UInt8) :=
  if 65535 < octets.length then throw (.dataTooLong r.name)
  else return word16 (.ofNat octets.length) ++ octets

/-- A record: its question, its TTL and its data. -/
def encodeRecord (r : Record) : Except Fault (List UInt8) := do
  let owner ← encodeQuestion r.question
  let data ← encodeData r
  let sized ← encodeSized r data
  return owner ++ word32 r.ttl ++ sized

def encodeRecords (records : List Record) : Except Fault (List UInt8) :=
  return (← records.mapM encodeRecord).flatten

/-- The question of a message, nothing if it has none. -/
def encodeQuestion? : Option Question → Except Fault (List UInt8)
  | none => return []
  | some q => encodeQuestion q

def encode (m : Message) : Except Fault (List UInt8) := do
  let answerCount ← encodeCount m.answers
  let authorityCount ← encodeCount m.authorities
  let additionalCount ← encodeCount m.additionals
  let question ← encodeQuestion? m.question
  let records ← encodeRecords m.allRecords
  return word16 m.id ++ word16 m.flags.word ++ word16 (if m.question.isSome then 1 else 0)
    ++ answerCount ++ authorityCount ++ additionalCount ++ question ++ records

def encodeQuery (q : Question) (id : UInt16) : Except Fault (List UInt8) :=
  encode (.query q id)

end IterativeDns.Wire
