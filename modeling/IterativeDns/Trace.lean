import IterativeDns.Address.Text
import IterativeDns.Message
import IterativeDns.Text.Truth

/-!
# The trace of a lookup

What happens between a resolver and the nameservers is told event by event. An event is written
to a log as a line with a level, a fixed text and named values.
-/

namespace IterativeDns

inductive Transport where
  | udp | tcp
deriving DecidableEq, Repr

def Transport.text : Transport → String
  | udp => "UDP"
  | tcp => "TCP"

/-- One event of a lookup. -/
inductive TraceEvent where
  | querySent (transport : Transport) (question : Question) (server : Endpoint) (id : UInt16)
  | responseReceived (id : UInt16) (authoritative truncated : Bool) (rcode : ResponseCode)
  /-- A section of a response with so many records follows. -/
  | sectionStarted («section» : Section) (count : Nat)
  | recordDecoded («section» : Section) (record : Record)
deriving DecidableEq, Repr

namespace Message

def headerEvent (m : Message) : TraceEvent :=
  .responseReceived m.id m.flags.authoritative m.flags.truncated m.responseCode

/-- The event of a section and those of its records. -/
def sectionEvents (m : Message) (part : Section) : List TraceEvent :=
  .sectionStarted part (m.records part).length :: (m.records part).map (.recordDecoded part)

/-- The events of a response: its header, and unless its verdict is an error its sections. -/
def events (m : Message) : List TraceEvent :=
  m.headerEvent :: if m.responseCode.isError then [] else Section.all.flatMap m.sectionEvents

end Message

/-! ### Log lines -/

/-- How much a log line matters. -/
inductive LogLevel where
  | trace | debug | info | warn | error
deriving DecidableEq, Repr

structure LogLine where
  level : LogLevel
  message : String
  /-- The values the line names. -/
  values : List (String × String)
deriving DecidableEq, Repr

/-- The log line of an event; the time left of a record is as of `now`. -/
def TraceEvent.logLine (now : Instant) : TraceEvent → LogLine
  | querySent transport question server id =>
    ⟨.debug, "Query sent", [("transport", transport.text), ("question", question.text),
      ("server", server.text), ("id", toString id.toNat)]⟩
  | responseReceived id authoritative truncated rcode =>
    ⟨.debug, "Response received", [("id", toString id.toNat),
      ("authoritative", Text.truth authoritative), ("truncated", Text.truth truncated),
      ("rcode", rcode.text)]⟩
  | sectionStarted part count =>
    ⟨.trace, "Section", [("section", part.text), ("count", toString count)]⟩
  | recordDecoded part record =>
    ⟨.trace, "Record", [("section", part.text), ("record", record.line now)]⟩

end IterativeDns
