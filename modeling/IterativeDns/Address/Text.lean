import IterativeDns.Address
import IterativeDns.Text.Digits

/-!
# Addresses as text

Version 4 addresses are four decimal numbers without leading zeros. Version 6 addresses are
eight hexadecimal groups; they are written in the canonical form of RFC 5952 (lower case, no
leading zeros, the first longest run of at least two zero groups as `::`), with the last two
groups as a version 4 address when, and only when, the address is an IPv4-mapped one.

Reading accepts more: upper case, leading zeros up to four digits, `::` for a run of any
length from one, and a trailing version 4 address in any version 6 address with room for it.

A reader takes the text that is left and returns the text after what it read.
-/

namespace IterativeDns.Address

open Text

/-! ### Writing -/

/-- Four numbers with points between them. -/
def quadText (octets : List UInt8) : String :=
  ".".intercalate (octets.map fun b => toString b.toNat)

/-- The sixteen-bit groups of a sequence of octets. -/
def groups : List UInt8 → List Nat
  | high :: low :: rest => (high.toNat * 256 + low.toNat) :: groups rest
  | _ => []

/-- Groups with colons between them. -/
def groupsText (gs : List Nat) : String :=
  ":".intercalate (gs.map hexNumeral)

def leadingZeros (gs : List Nat) : Nat :=
  (gs.takeWhile (· == 0)).length

/-- The first longest run of zeros, as its start and its length; the length is zero when there
is no zero. -/
def longestZeroRun : List Nat → Nat × Nat
  | [] => (0, 0)
  | g :: gs =>
    let here := leadingZeros (g :: gs)
    let (start, length) := longestZeroRun gs
    if length ≤ here then (0, here) else (start + 1, length)

/-- Eight groups, the longest run of zeros cut out when it has at least two. -/
def groupsCanonical (gs : List Nat) : String :=
  let (start, length) := longestZeroRun gs
  if length ≤ 1 then groupsText gs
  else groupsText (gs.take start) ++ "::" ++ groupsText (gs.drop (start + length))

/-- The first ten octets are zero and the next two are all ones. -/
def isMappedV4 (octets : List UInt8) : Bool :=
  octets.take 12 == List.replicate 10 0 ++ [0xFF, 0xFF]

/-- The canonical text of an address. -/
def text : Address → String
  | .v4 os => quadText os.toList
  | .v6 os =>
    if isMappedV4 os.toList then "::ffff:" ++ quadText (os.toList.drop 12)
    else groupsCanonical (groups os.toList)

/-! ### Reading -/

def readChar (expected : Char) : List Char → Option (Unit × List Char)
  | c :: cs => if c = expected then some ((), cs) else none
  | [] => none

/-- Reads the longest run of digits of the given base and returns the digits. -/
def digitRun (base : Nat) (cs : List Char) : List Char × List Char :=
  (cs.takeWhile fun c => (digitBelow? base c).isSome,
   cs.dropWhile fun c => (digitBelow? base c).isSome)

/-- Reads a decimal octet: up to three digits, below 256, no leading zero. -/
def readOctet (cs : List Char) : Option (UInt8 × List Char) := do
  let (digits, rest) := digitRun 10 cs
  let n ← numeral? 10 digits
  if digits.length ≤ 3 ∧ n < 256 ∧ (digits.length = 1 ∨ digits.head? ≠ some '0')
  then some (UInt8.ofNat n, rest) else none

/-- Reads a hexadecimal group of up to four digits. -/
def readGroup (cs : List Char) : Option (Nat × List Char) := do
  let (digits, rest) := digitRun 16 cs
  let n ← numeral? 16 digits
  if digits.length ≤ 4 then some (n, rest) else none

/-- Reads four octets with points between them. -/
def readQuad (cs : List Char) : Option (Vector UInt8 4 × List Char) := do
  let (a, cs) ← readOctet cs
  let (_, cs) ← readChar '.' cs
  let (b, cs) ← readOctet cs
  let (_, cs) ← readChar '.' cs
  let (c, cs) ← readOctet cs
  let (_, cs) ← readChar '.' cs
  let (d, cs) ← readOctet cs
  return (quad a b c d, cs)

/-- Reads a colon first, except before the first group. -/
def readSeparated {α : Type} (isFirst : Bool) (read : List Char → Option (α × List Char))
    (cs : List Char) : Option (α × List Char) :=
  if isFirst then read cs
  else match readChar ':' cs with
    | some (_, rest) => read rest
    | none => none

/-- Reads a version 4 address as two groups. -/
def readQuadGroups (cs : List Char) : Option (List Nat × List Char) := do
  let (os, rest) ← readQuad cs
  return (groups os.toList, rest)

/-- What a run of groups ended with. -/
structure GroupRun where
  groups : List Nat
  /-- Whether the last two were written as a version 4 address. -/
  endsInQuad : Bool
  rest : List Char

/-- Reads at most `room` groups, as many as there are. A version 4 address counts as two groups
and ends the run. -/
def readGroups : (room : Nat) → (isFirst : Bool) → List Char → GroupRun
  | 0, _, cs => ⟨[], false, cs⟩
  | room + 1, isFirst, cs =>
    match (if 0 < room then readSeparated isFirst readQuadGroups cs else none) with
    | some (gs, rest) => ⟨gs, true, rest⟩
    | none =>
      match readSeparated isFirst readGroup cs with
      | some (g, rest) =>
        let run := readGroups room false rest
        ⟨g :: run.groups, run.endsInQuad, run.rest⟩
      | none => ⟨[], false, cs⟩

/-- The octets of a group. -/
def groupOctets (g : Nat) : List UInt8 :=
  [UInt8.ofNat (g / 256), UInt8.ofNat (g % 256)]

/-- Eight groups as a version 6 address. -/
def ofGroups? (gs : List Nat) : Option Address :=
  if gs.length = 8 then ofOctets? (gs.flatMap groupOctets) else none

/-- Reads a version 6 address: eight groups, or two runs with `::` for the groups between. -/
def readV6 (cs : List Char) : Option (Address × List Char) := do
  let head := readGroups 8 true cs
  if head.groups.length = 8 then
    let ip ← ofGroups? head.groups
    some (ip, head.rest)
  else if head.endsInQuad then none
  else
    let (_, rest) ← readChar ':' head.rest
    let (_, rest) ← readChar ':' rest
    let tail := readGroups (7 - head.groups.length) true rest
    let gap := List.replicate (8 - head.groups.length - tail.groups.length) 0
    let ip ← ofGroups? (head.groups ++ gap ++ tail.groups)
    some (ip, tail.rest)

/-- Reads an address of either family; version 4 is tried first. -/
def read (cs : List Char) : Option (Address × List Char) :=
  match readQuad cs with
  | some (os, rest) => some (.v4 os, rest)
  | none => readV6 cs

/-- The address a whole text writes. -/
def parse? (s : String) : Option Address :=
  match read s.toList with
  | some (ip, []) => some ip
  | _ => none

end Address

/-! ### Socket addresses -/

/-- An address and a port: where datagrams and streams go to and come from. -/
structure Endpoint where
  address : Address
  port : UInt16
deriving DecidableEq, Repr

namespace Endpoint

open Text

/-- `address:port`, a version 6 address in brackets. -/
def text (e : Endpoint) : String :=
  match e.address with
  | .v4 _ => e.address.text ++ ":" ++ toString e.port.toNat
  | .v6 _ => "[" ++ e.address.text ++ "]:" ++ toString e.port.toNat

/-- A port number: decimal digits, leading zeros allowed, below 65536. -/
def readPort (cs : List Char) : Option (UInt16 × List Char) := do
  let (digits, rest) := Address.digitRun 10 cs
  let n ← numeral? 10 digits
  if n < 65536 then some (UInt16.ofNat n, rest) else none

/-- Reads `address:port` or `[address]:port`. -/
def read (cs : List Char) : Option (Endpoint × List Char) :=
  match Address.readQuad cs with
  | some (os, rest) => do
    let (_, rest) ← Address.readChar ':' rest
    let (port, rest) ← readPort rest
    return (⟨.v4 os, port⟩, rest)
  | none => do
    let (_, rest) ← Address.readChar '[' cs
    let (ip, rest) ← Address.readV6 rest
    let (_, rest) ← Address.readChar ']' rest
    let (_, rest) ← Address.readChar ':' rest
    let (port, rest) ← readPort rest
    return (⟨ip, port⟩, rest)

/-- The socket address a whole text writes. -/
def parse? (s : String) : Option Endpoint :=
  match read s.toList with
  | some (e, []) => some e
  | _ => none

end Endpoint

end IterativeDns
