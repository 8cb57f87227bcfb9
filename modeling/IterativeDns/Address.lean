/-!
# Internet addresses

An address is four or sixteen octets. Addresses are ordered family first (version 4 before
version 6), then by their octets from the left, which for either family is the numeric order.
-/

namespace IterativeDns

/-- An Internet address of either family, most significant octet first. -/
inductive Address where
  | v4 (octets : Vector UInt8 4)
  | v6 (octets : Vector UInt8 16)
deriving DecidableEq, Repr

namespace Address

/-- The octets as they stand on the wire. -/
def octets : Address → List UInt8
  | .v4 os => os.toList
  | .v6 os => os.toList

def isV4 : Address → Bool
  | .v4 _ => true
  | .v6 _ => false

/-- Reads an address off its octets; only lengths four and sixteen are addresses. -/
def ofOctets? (bytes : List UInt8) : Option Address :=
  if h : bytes.length = 4 then some (.v4 ⟨bytes.toArray, by simpa using h⟩)
  else if h : bytes.length = 16 then some (.v6 ⟨bytes.toArray, by simpa using h⟩)
  else none

/-- The octets of a version 4 address one by one. -/
def quad (a b c d : UInt8) : Vector UInt8 4 :=
  ⟨#[a, b, c, d], rfl⟩

def ofQuad (a b c d : UInt8) : Address :=
  .v4 (quad a b c d)

/-- The order of addresses: by family, then by octets. -/
def compare : Address → Address → Ordering
  | .v4 a, .v4 b => Ord.compare a.toList b.toList
  | .v4 _, .v6 _ => .lt
  | .v6 _, .v4 _ => .gt
  | .v6 a, .v6 b => Ord.compare a.toList b.toList

instance : Ord Address := ⟨compare⟩

@[simp] theorem length_octets_v4 (os : Vector UInt8 4) : (octets (.v4 os)).length = 4 := by
  simp [octets]

@[simp] theorem length_octets_v6 (os : Vector UInt8 16) : (octets (.v6 os)).length = 16 := by
  simp [octets]

theorem ofOctets?_octets (ip : Address) : ofOctets? ip.octets = some ip := by
  cases ip with
  | v4 os => obtain ⟨a, ha⟩ := os; simp [ofOctets?, octets, ha, Vector.toList]
  | v6 os => obtain ⟨a, ha⟩ := os; simp [ofOctets?, octets, ha, Vector.toList]

theorem octets_of_ofOctets? {bytes : List UInt8} {ip : Address}
    (h : ofOctets? bytes = some ip) : ip.octets = bytes := by
  unfold ofOctets? at h
  split at h
  · cases h; simp [octets]
  · split at h
    · cases h; simp [octets]
    · cases h

end Address

end IterativeDns
