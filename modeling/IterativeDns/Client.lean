import IterativeDns.Failure
import IterativeDns.Trace

/-!
# Clients

A client asks one server one question, and time passes meanwhile. All a lookup knows of the
network is a client: a function that gets a state and returns the next, and the instant it is in
a state. So nothing is assumed about what servers answer, about whether they answer the same
question twice alike, or about how long they take, except that the clock never goes back.
-/

namespace IterativeDns

/-- How an exchange with a server ended when nothing went wrong with it. -/
inductive Reply where
  /-- The server's response, whatever its verdict. -/
  | message (m : Message)
  | silence
deriving DecidableEq, Repr

/-- An exchange as the client reports it. -/
structure Exchanged where
  outcome : Except Failure Reply
  trace : List TraceEvent

/-- Asks a server a question in a given state. -/
structure Client (σ : Type) where
  ask : Question → Address → σ → Exchanged × σ
  /-- The present instant. -/
  now : σ → Instant
  now_le_now_ask : ∀ q server x, now x ≤ now (ask q server x).2

namespace Client

/-- A client for which no time passes and whose exchanges leave nothing behind. -/
def stateless (answer : Question → Address → Exchanged) : Client Unit where
  ask q server _ := (answer q server, ())
  now _ := 0
  now_le_now_ask _ _ _ := Int.le_refl 0

/-- A client that has a clock and nothing else: what comes of an exchange and how many milliseconds
it takes depend on what is asked, whom, and when. -/
def timed (answer : Question → Address → Instant → Exchanged × Nat) : Client Instant where
  ask q server now :=
    let (exchanged, elapsed) := answer q server now
    (exchanged, now + elapsed)
  now := id
  now_le_now_ask _ _ _ := Int.le_add_of_nonneg_right (Int.natCast_nonneg _)

end Client

end IterativeDns
