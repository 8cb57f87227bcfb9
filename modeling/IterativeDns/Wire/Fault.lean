import IterativeDns.Failure
import IterativeDns.RecordType
import IterativeDns.Text.Digits

/-!
# Faults of the wire format

Everything that keeps a name or a message from being written as octets or read from them, with
the place where it was met. Positions count octets from the start of the message.
-/

namespace IterativeDns.Wire

/-- What is wrong with a text or with octets. -/
inductive Fault where
  /-- Two dots meet in a name, or it starts with one. -/
  | emptyLabel (name : String)
  /-- A label has more octets than its length octet can say. -/
  | labelTooLong (label : String)
  /-- A name needs more octets than any name may have. -/
  | nameTooLong (name : String)
  /-- A section has more records than its count can say. -/
  | tooManyRecords
  /-- The data of a record is kept as text that is not hexadecimal. -/
  | dataNotHex (owner : String)
  /-- The data of a record has more octets than its length can say. -/
  | dataTooLong (owner : String)
  /-- The octets end where a name goes on. -/
  | nameCutShort (offset : Nat)
  /-- The octets end inside a label. -/
  | labelCutShort (position : Nat)
  /-- The labels of a name add up to more octets than any name may have. -/
  | nameOversized (offset : Nat)
  /-- A label is no text. -/
  | labelNotText (position : Nat)
  /-- A label has a dot of its own. -/
  | labelWithDot (position : Nat)
  /-- The octets end inside a pointer. -/
  | pointerCutShort (position : Nat)
  /-- A pointer leads to where the name has been already, or further on. -/
  | pointerNotBackward (position target : Nat)
  /-- The top bits of a length octet mean neither a label nor a pointer. -/
  | unknownLabelKind (bits position : Nat)
  /-- A message has no complete header. -/
  | headerCutShort (size : Nat)
  /-- The octets cannot hold as many questions and records as the header says. -/
  | countsOverrun (questions answers authorities additionals size : Nat)
  /-- The octets end inside a field. -/
  | fieldCutShort (length position size : Nat)
  /-- The data of a record has a length that its type does not allow. -/
  | dataLength (recordType : RecordType) (owner : String) (length : Nat)
  /-- A name in the data of a record goes on after the data ends. -/
  | nameOverrunsData (position : Nat)
deriving DecidableEq, Repr

namespace Fault

/-- The fault lies in a text that was to become a name. -/
def isOfName : Fault → Bool
  | emptyLabel _ | labelTooLong _ | nameTooLong _ => true
  | _ => false

def message : Fault → String
  | emptyLabel name => "Empty label in '" ++ name ++ "'"
  | labelTooLong label => "Label '" ++ label ++ "' exceeds 63 bytes"
  | nameTooLong name => "Name '" ++ name ++ "' exceeds 255 bytes"
  | tooManyRecords => "Too many records in section"
  | dataNotHex owner => "Opaque RDATA of " ++ owner ++ " is not hex"
  | dataTooLong owner => "RDATA of " ++ owner ++ " too long"
  | nameCutShort offset => "Name at " ++ toString offset ++ " runs past end"
  | labelCutShort position => "Label at " ++ toString position ++ " runs past end"
  | nameOversized offset => "Name at " ++ toString offset ++ " exceeds 255 bytes"
  | labelNotText position => "Label at " ++ toString position ++ " is not valid UTF-8"
  | labelWithDot position => "Label at " ++ toString position ++ " contains a '.' byte"
  | pointerCutShort position => "Truncated pointer at " ++ toString position
  | pointerNotBackward position target =>
    "Pointer at " ++ toString position ++ " does not point backward (target "
      ++ toString target ++ ")"
  | unknownLabelKind bits position =>
    "Unsupported label type 0x" ++ Text.hexNumeral bits ++ " at " ++ toString position
  | headerCutShort size => "Message of " ++ toString size ++ " bytes is shorter than a header"
  | countsOverrun questions answers authorities additionals size =>
    "Header counts (" ++ toString questions ++ "/" ++ toString answers ++ "/"
      ++ toString authorities ++ "/" ++ toString additionals ++ ") overrun "
      ++ toString size ++ " byte message"
  | fieldCutShort length position size =>
    "Need " ++ toString length ++ " bytes at offset " ++ toString position ++ ", message has "
      ++ toString size
  | dataLength recordType owner length =>
    recordType.text ++ " record for " ++ owner ++ " has RDATA length " ++ toString length
  | nameOverrunsData position => "Name at " ++ toString position ++ " overruns its RDATA"

/-- A fault as a failure: of the name if it lies in a name, of the message otherwise. -/
def toFailure (f : Fault) : Failure :=
  if f.isOfName then .invalidName f.message else .malformedMessage f.message

end Fault

end IterativeDns.Wire
