import IterativeDns.Name
import IterativeDns.Wire.Fault

/-!
# Names on the wire

A name is written as its labels, each after an octet with its length, and a zero octet. Labels
have at most 63 octets of UTF-8 and a whole name at most 255.

When a name is read, an octet with both top bits set starts a two-octet pointer: the name goes
on at another place of the message. A run of labels may only be left for a place before its own
start. That start therefore moves towards the front with every pointer, and this is why reading
ends: `walk` recurses on the start of the run, then on what is left of the message. The two are
taken as one number, since a recursion on a number can be evaluated where one on a pair cannot.
-/

namespace IterativeDns.Wire

def maxLabel : Nat := 63

/-- The most octets a name may have, length octets and the closing zero included. -/
def maxName : Nat := 255

/-! ### Writing -/

def utf8 (s : String) : List UInt8 :=
  s.toUTF8.data.toList

/-- A label after its length; `name` is the name it is part of. -/
def encodeLabel (name : String) (label : List Char) : Except Fault (List UInt8) :=
  let text := String.ofList label
  let octets := utf8 text
  if label = [] then throw (.emptyLabel name)
  else if maxLabel < octets.length then throw (.labelTooLong text)
  else return UInt8.ofNat octets.length :: octets

/-- The labels of a name one after the other, without the closing zero. -/
def encodeLabels (name : String) : Except Fault (List UInt8) :=
  if name.toList = [] then return []
  else return (← (Name.pieces name.toList).mapM (encodeLabel name)).flatten

/-- A name without compression; one closing dot of the text does not count. -/
def encodeName (text : String) : Except Fault (List UInt8) := do
  let name := Name.stripDot text
  let labels ← encodeLabels name
  if maxName < labels.length + 1 then throw (.nameTooLong name)
  else return labels ++ [0]

/-! ### Reading -/

/-- What the first octet of the next part of a name says. -/
inductive LabelKind where
  | root
  | label (length : Nat)
  /-- The name goes on elsewhere; the six bits are the high part of the place. -/
  | pointer (high : Nat)
  /-- Neither; the two top bits. -/
  | unknown (bits : Nat)
deriving DecidableEq, Repr

/-- The meaning of a length octet by its two top bits. -/
def labelKind (octet : UInt8) : LabelKind :=
  let n := octet.toNat
  if n = 0 then .root
  else if n < 0x40 then .label n
  else if n < 0x80 then .unknown 0x40
  else if n < 0xC0 then .unknown 0x80
  else .pointer (n - 0xC0)

theorem labelKind_label {octet : UInt8} {length : Nat} (h : labelKind octet = .label length) :
    length = octet.toNat ∧ 0 < length ∧ length < 64 := by
  unfold labelKind at h
  simp only at h
  repeat' split at h
  all_goals cases h
  omega

/-- The text of the octets of a label: they must be UTF-8 and must not hold a dot. -/
def labelText (position : Nat) (octets : List UInt8) : Except Fault String :=
  match String.fromUTF8? ⟨octets.toArray⟩ with
  | none => throw (.labelNotText position)
  | some text => if '.' ∈ text.toList then throw (.labelWithDot position) else return text

/-- Reads the labels of a name from `position` on. `offset` is where the whole name starts,
`start` where the run of labels that holds `position` starts, and `used` how many octets the
name has so far, its closing zero included. Returns the labels and the position after the name
as it stands at `position`: after its zero octet or its first pointer. -/
def walk (message : List UInt8) (offset start used position : Nat) :
    Except Fault (List String × Nat) :=
  match _h : message[position]? with
  | none => throw (.nameCutShort offset)
  | some octet =>
    match labelKind octet with
    | .root => return ([], position + 1)
    | .unknown bits => throw (.unknownLabelKind bits position)
    | .label length =>
      let octets := (message.drop (position + 1)).take length
      if octets.length < length then throw (.labelCutShort position)
      else if maxName < used + length + 1 then throw (.nameOversized offset)
      else do
        let text ← labelText position octets
        let (labels, next) ← walk message offset start (used + length + 1) (position + 1 + length)
        return (text :: labels, next)
    | .pointer high =>
      match message[position + 1]? with
      | none => throw (.pointerCutShort position)
      | some low =>
        let target := high * 256 + low.toNat
        if target < start then do
          let (labels, _) ← walk message offset target used target
          return (labels, position + 2)
        else throw (.pointerNotBackward position target)
termination_by start * (message.length + 1) + (message.length - position)
decreasing_by
  · have := (List.getElem?_eq_some_iff.1 _h).1
    omega
  · have hback : (high * 256 + low.toNat + 1) * (message.length + 1) ≤
        start * (message.length + 1) := Nat.mul_le_mul_right _ ‹_›
    rw [Nat.add_mul] at hback
    omega

/-- The name at a place of a message, its labels joined by dots, and the position after it. -/
def decodeName (message : List UInt8) (offset : Nat) : Except Fault (String × Nat) := do
  let (labels, next) ← walk message offset offset 1 offset
  return (String.ofList (Name.join (labels.map String.toList)), next)

end IterativeDns.Wire
