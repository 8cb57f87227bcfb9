import IterativeDns.Exchange
import IterativeDns.Network.Replay
import IterativeDns.Wire.Frame
import Std.Async.TCP
import Std.Async.Timer
import Std.Async.UDP

/-!
# Sockets

The outer side of a replay: acts are performed with the sockets of the machine. One datagram
socket per address family is kept for a whole run, the one of version 6 from its first use on.
A stream is opened for one query and closed again.
-/

namespace IterativeDns

open Std.Net Std.Async

/-! ### Addresses and octets -/

/-- The word of sixteen bits at a place among the words that octets make up. -/
def wordAt (octets : List UInt8) (place : Nat) : UInt16 :=
  Wire.ofOctets16 (octets.getD (2 * place) 0) (octets.getD (2 * place + 1) 0)

/-- An endpoint as the sockets write it. -/
def Endpoint.toSocketAddress (e : Endpoint) : SocketAddress :=
  match e.address with
  | .v4 octets => .v4 ⟨⟨octets⟩, e.port⟩
  | .v6 octets => .v6 ⟨⟨Vector.ofFn fun i => wordAt octets.toList i.val⟩, e.port⟩

/-- A version 6 address by its words. -/
def Address.ofWords (words : Vector UInt16 8) : Address :=
  .v6 (Vector.ofFn fun i =>
    let word := words[i.val / 2].toNat
    .ofNat (if i.val % 2 = 0 then word / 256 else word % 256))

/-- The endpoint that the sockets write so. -/
def Endpoint.ofSocketAddress : SocketAddress → Endpoint
  | .v4 ⟨⟨octets⟩, port⟩ => ⟨.v4 octets, port⟩
  | .v6 ⟨⟨words⟩, port⟩ => ⟨.ofWords words, port⟩

/-- Octets as the sockets take them. -/
def packed (octets : List UInt8) : ByteArray :=
  ⟨octets.toArray⟩

/-! ### What goes wrong -/

/-- The number of an error; where errors are counted downwards from zero, the distance. -/
def errorNumber (code : UInt32) : Nat :=
  if code.toNat < 2147483648 then code.toNat else 4294967296 - code.toNat

/-- The text of an error of the system. -/
def systemError (code : UInt32) (details : String) : String :=
  details.capitalize ++ " (os error " ++ toString (errorNumber code) ++ ")"

/-- Why something failed. -/
def reasonOf : IO.Error → String
  | .alreadyExists _ code details | .inappropriateType _ code details
  | .invalidArgument _ code details | .noSuchThing _ code details
  | .permissionDenied _ code details | .resourceExhausted _ code details
  | .interrupted _ code details | .noFileOrDirectory _ code details
  | .hardwareFault code details | .illegalOperation code details | .otherError code details
  | .protocolError code details | .resourceBusy code details | .resourceVanished code details
  | .timeExpired code details | .unsatisfiedConstraints code details
  | .unsupportedOperation code details => systemError code details
  | .unexpectedEof => "early eof"
  | .userError reason => reason

/-- What an action returns, or why it fails. -/
def attempted {α : Type} (action : IO α) : IO (Except String α) := do
  match ← action.toBaseIO with
  | .ok a => return .ok a
  | .error e => return .error (reasonOf e)

/-- What an action returns, unless it takes too long; `late` is what to say then. -/
def within {α : Type} (milliseconds : Nat) (late : String) (action : Async α) : Async α := do
  let result : Option α ← Async.race (some <$> action) do
    sleep (.ofNat milliseconds)
    return none
  match result with
  | some a => return a
  | none => throw (IO.userError late)

/-! ### Datagrams -/

/-- The datagram sockets of a run. -/
structure Sockets where
  v4 : UDP.Socket
  v6 : IO.Ref (Option UDP.Socket)

/-- A socket at a free port of this machine. -/
def bindAnywhere (here : Endpoint) : IO UDP.Socket := do
  let socket ← UDP.Socket.mk
  try
    socket.bind here.toSocketAddress
    return socket
  catch e => throw (IO.userError ("failed to bind UDP socket: " ++ reasonOf e))

/-- Any address of this machine and a free port. -/
def anyV4 : Endpoint :=
  ⟨.ofQuad 0 0 0 0, 0⟩

/-- Any version 6 address of this machine and a free port. -/
def anyV6 : Endpoint :=
  ⟨.ofWords (.replicate 8 0), 0⟩

namespace Sockets

/-- The sockets at the start of a run. -/
def start : IO Sockets := do
  return ⟨← bindAnywhere anyV4, ← IO.mkRef none⟩

/-- The socket for a server. -/
def socketFor (s : Sockets) (server : Endpoint) : IO UDP.Socket := do
  if server.address.isV4 then return s.v4
  match ← s.v6.get with
  | some socket => return socket
  | none =>
    let socket ← bindAnywhere anyV6
    s.v6.set (some socket)
    return socket

/-- Reads datagrams until one is a reply to the query with the ID or the time is over. -/
partial def collect (socket : UDP.Socket) (settings : ExchangeSettings) (server : Endpoint)
    (id : UInt16) (start : Nat) (deliveries : Array (Nat × Delivery)) :
    IO (List (Nat × Delivery)) := do
  let elapsed := (← IO.monoMsNow) - start
  if settings.timeout ≤ elapsed then return deliveries.toList
  let size := min 65535 (max settings.bufferSize Wire.headerSize)
  let received ← attempted <| Async.block do
    Selectable.one #[
      .case (socket.recvSelector (.ofNat size)) fun datagram => pure (some datagram),
      .case (← Selector.sleep (.ofNat (settings.timeout - elapsed))) fun _ => pure none]
  let time := min settings.timeout ((← IO.monoMsNow) - start)
  match received with
  | .error reason => return (deliveries.push (time, .failure reason)).toList
  | .ok none | .ok (some (_, none)) => return deliveries.toList
  | .ok (some (octets, some source)) =>
    let source := Endpoint.ofSocketAddress source
    let octets := octets.data.toList
    let deliveries := deliveries.push (time, .datagram source octets)
    if Exchange.isReply server id source octets then return deliveries.toList
    else collect socket settings server id start deliveries

/-- Sends a datagram and collects what arrives after it. -/
def send (s : Sockets) (settings : ExchangeSettings) (server : Endpoint) (octets : List UInt8) :
    IO (Except String (List (Nat × Delivery))) := do
  let sent ← attempted do
    let socket ← s.socketFor server
    (socket.send (packed octets) (some server.toSocketAddress)).block
    return socket
  match sent with
  | .error reason => return .error reason
  | .ok socket =>
    let id := ((Wire.peek octets).map Prod.fst).getD 0
    return .ok (← collect socket settings server id (← IO.monoMsNow) #[])

end Sockets

/-! ### Streams -/

/-- Reads a stream until a whole message has come. -/
partial def readMessage (stream : TCP.Socket.Client) (octets : List UInt8) :
    Async (List UInt8) := do
  match Wire.unframe? octets with
  | some message => return message
  | none =>
    match ← stream.recv? 65536 with
    | none => throw IO.Error.unexpectedEof
    | some more => readMessage stream (octets ++ more.data.toList)

/-- Sends a query over a stream and reads the reply; each step may take as long as a whole
attempt. -/
def converse (settings : ExchangeSettings) (server : Endpoint) (octets : List UInt8) :
    IO (Except String (List UInt8)) := do
  let connected ← attempted do
    let stream ← TCP.Socket.Client.mk
    let connect : Async Unit := do
      try stream.connect server.toSocketAddress
      catch e => throw (IO.userError ("TCP connect failed: " ++ reasonOf e))
    (within settings.timeout "timeout connecting over TCP" connect).block
    stream.noDelay
    return stream
  match connected, Wire.frame octets with
  | .error reason, _ => return .error reason
  | .ok _, .error reason => return .error reason
  | .ok stream, .ok framed => attempted do
    (within settings.timeout "timeout sending TCP query" (stream.send (packed framed))).block
    (within settings.timeout "timeout waiting for TCP response" (readMessage stream [])).block

/-! ### Acts -/

def Sockets.perform (s : Sockets) (settings : ExchangeSettings) : NetworkAct → IO Reaction
  | .send server octets => return .sent (← s.send settings server octets)
  | .converse server octets => do
    let start ← IO.monoMsNow
    let reply ← IterativeDns.converse settings server octets
    return .replied ⟨(← IO.monoMsNow) - start, reply⟩

end IterativeDns
