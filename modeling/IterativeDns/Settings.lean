import IterativeDns.Failure
import IterativeDns.RootHint
import IterativeDns.Address.Text
import IterativeDns.Text.Blank
import IterativeDns.Text.Casing

/-!
# Settings

What a resolver can be told: where to start, how to ask, how far to go, and what to log. Every
setting has a default, and the defaults work. `Settings.fault?` names the first thing that is
wrong with settings, in a fixed order.
-/

namespace IterativeDns

inductive LogFormat where
  | text | json
deriving DecidableEq, Repr, Inhabited

def LogFormat.name : LogFormat → String
  | text => "text"
  | json => "json"

/-- How to resolve. -/
structure ResolverSettings where
  rootServers : List RootHint := RootHint.wellKnown
  port : UInt16 := 53
  /-- How many milliseconds one attempt waits for a reply. -/
  timeout : UInt64 := 5000
  /-- How often a query is sent before the server counts as silent. -/
  attempts : UInt32 := 3
  /-- How many aliases are followed in a row. -/
  maxAliases : Int32 := 10
  /-- How many lookups of nameserver addresses may be nested. -/
  nameserverBudget : UInt32 := 10
  /-- How many octets of a datagram are read. -/
  bufferSize : UInt64 := 1280
  /-- Truncated replies are asked for again over TCP. -/
  useTcp : Bool := true
  /-- Nameservers are also asked over version 6 addresses. -/
  useIpv6 : Bool := false
deriving DecidableEq, Repr

structure LoggingSettings where
  /-- The least level that is logged, by name. -/
  level : String := "warn"
  format : LogFormat := .text
deriving DecidableEq, Repr

structure Settings where
  resolver : ResolverSettings := {}
  logging : LoggingSettings := {}
deriving DecidableEq, Repr

/-- Settings given for one run, which win over those of a file. -/
structure Overrides where
  port : Option UInt16 := none
  timeout : Option UInt64 := none
  maxAliases : Option Int32 := none
  disableTcp : Bool := false
  logLevel : Option String := none
deriving DecidableEq, Repr

def Settings.override (s : Settings) (o : Overrides) : Settings where
  resolver :=
    { s.resolver with
      port := o.port.getD s.resolver.port
      timeout := o.timeout.getD s.resolver.timeout
      maxAliases := o.maxAliases.getD s.resolver.maxAliases
      useTcp := s.resolver.useTcp && !o.disableTcp }
  logging := { s.logging with level := o.logLevel.getD s.logging.level }

/-! ### What can be wrong -/

/-- The fewest octets of a datagram a resolver has to be able to read. -/
def minBufferSize : UInt64 := 512

inductive SettingsFault where
  | portZero
  | timeoutZero
  | noAttempts
  | noRootServers
  | namelessRootServer (address : Address)
  | bufferTooSmall
  | unknownLogLevel (level : String)
deriving DecidableEq, Repr

def SettingsFault.message : SettingsFault → String
  | portZero => "DNS port cannot be 0"
  | timeoutZero => "Query timeout must be greater than 0"
  | noAttempts => "At least one query attempt is required"
  | noRootServers => "No root servers configured"
  | namelessRootServer address => "Root server " ++ address.text ++ " has no name"
  | bufferTooSmall => "UDP buffer must hold at least 512 bytes"
  | unknownLogLevel level => "Unknown log level '" ++ level ++ "'"

def logLevelNames : List String :=
  ["trace", "debug", "info", "warn", "error"]

/-- A text names a log level, in any letter case. The names hold no letter that any character
outside ASCII becomes in lower case, so the case of ASCII letters is all that counts. -/
def isLogLevel (level : String) : Bool :=
  logLevelNames.any fun name => name.toList == Text.lower level

/-- The first thing wrong with settings, if anything is. -/
def Settings.fault? (s : Settings) : Option SettingsFault :=
  let r := s.resolver
  if r.port = 0 then some .portZero
  else if r.timeout = 0 then some .timeoutZero
  else if r.attempts = 0 then some .noAttempts
  else if r.rootServers = [] then some .noRootServers
  else
    match r.rootServers.find? fun h => Text.isAllBlank h.name with
    | some h => some (.namelessRootServer h.address)
    | none =>
      if r.bufferSize < minBufferSize then some .bufferTooSmall
      else if isLogLevel s.logging.level then none
      else some (.unknownLogLevel s.logging.level)

def Settings.IsValid (s : Settings) : Prop :=
  s.fault? = none

instance (s : Settings) : Decidable s.IsValid :=
  inferInstanceAs (Decidable (s.fault? = none))

theorem Settings.isValid_default : Settings.IsValid {} := by decide

/-- Lets settings pass that can be used. -/
def Settings.validate (s : Settings) : Except SettingsFailure Settings :=
  match s.fault? with
  | some f => throw (.invalid f.message)
  | none => return s

end IterativeDns
