import IterativeDns.Network

/-!
# Replaying a network

What a client does over a network is a function of how the network reacts, and sockets are no
function. A replay stands between the two: it is a network that knows how the world has reacted
so far, and that keeps note of the first act it knows no reaction to. Whoever owns the sockets
performs that act, adds the reaction, and lets the client start over, until nothing is missing.
As a client does the same things as long as it sees the same reactions, every act is performed
once.
-/

namespace IterativeDns

/-- Something done to a network that the world reacts to. -/
inductive NetworkAct where
  | send (server : Endpoint) (octets : List UInt8)
  | converse (server : Endpoint) (octets : List UInt8)
deriving DecidableEq, Repr

/-- How the world reacts to an act. -/
inductive Reaction where
  | sent (outcome : Except String (List (Nat × Delivery)))
  | replied (conversation : Conversation)

/-- Reactions that are still to be replayed. -/
structure Replay where
  /-- Where the IDs of queries come from. -/
  ids : StdGen
  reactions : List Reaction
  /-- The first act without a reaction. -/
  missing : Option NetworkAct := none

namespace Replay

/-- Notes an act without a reaction; nothing is replayed after it. -/
def stop (r : Replay) (act : NetworkAct) : Replay :=
  { r with reactions := [], missing := r.missing <|> some act }

/-- What a client is told instead of a reaction. -/
def unknown : String := "not known yet"

/-- The network that replays reactions. -/
def network : Network Replay where
  chooseId r :=
    let (id, ids) := randNat r.ids 0 65535
    (.ofNat id, { r with ids })
  send server octets r :=
    match r.reactions with
    | .sent outcome :: reactions => (outcome, { r with reactions })
    | _ => (.error unknown, r.stop (.send server octets))
  converse server octets r :=
    match r.reactions with
    | .replied conversation :: reactions => (conversation, { r with reactions })
    | _ => (⟨0, .error unknown⟩, r.stop (.converse server octets))

end Replay

end IterativeDns
