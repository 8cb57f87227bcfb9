import IterativeDns.Document
import IterativeDns.Settings

/-!
# Settings from documents

A group of settings is a table with a member for each setting, or a sequence with a value for
each in turn. What is not given keeps its default; members that name no setting are ignored, as
long as they can be read, and values behind the last one of a sequence are not looked at. A value
of the wrong kind or out of range makes the whole document unusable.
-/

namespace IterativeDns.Document

/-! ### Scalars -/

def bool? : Document → Option Bool
  | .bool b => some b
  | _ => none

def text? : Document → Option String
  | .text s => some s
  | _ => none

def integerWithin? (lo hi : Int) : Document → Option Int
  | .integer n => if lo ≤ n ∧ n ≤ hi then some n else none
  | _ => none

def uint16? (d : Document) : Option UInt16 :=
  (d.integerWithin? 0 65535).map fun n => .ofNat n.toNat

def uint32? (d : Document) : Option UInt32 :=
  (d.integerWithin? 0 4294967295).map fun n => .ofNat n.toNat

def uint64? (d : Document) : Option UInt64 :=
  (d.integerWithin? 0 18446744073709551615).map fun n => .ofNat n.toNat

def int32? (d : Document) : Option Int32 :=
  (d.integerWithin? (-2147483648) 2147483647).map Int32.ofInt

/-! ### Groups -/

/-- The values given for the named settings of a group, in the order of the names. A moment is
written like a group whose members name no setting. -/
def members? (source : DocumentFormat) (names : List String) :
    Document → Option (List (Option Document))
  | .table members =>
    if areReadableMembers (members.filter fun m => !names.contains m.1) then
      some (names.map fun name => (members.find? fun m => m.1 == name).map Prod.snd)
    else none
  | .sequence items =>
    if items.length ≤ names.length || source.allowsSurplus then
      some ((items.take names.length).map some
        ++ List.replicate (names.length - items.length) none)
    else none
  | .moment _ => some (names.map fun _ => none)
  | _ => none

/-- The value of a setting: the default if none is given. -/
def orDefault {α : Type} (read : Document → Option α) (fallback : α) :
    Option Document → Option α
  | some d => read d
  | none => some fallback

end IterativeDns.Document

namespace IterativeDns

open Document

variable (source : DocumentFormat)

/-- Reads a root server: both its name and its address must be given. -/
def RootHint.ofDocument? (d : Document) : Option RootHint :=
  match d.members? source ["name", "address"] with
  | some [some name, some address] => do
    let name ← name.text?
    let address ← Address.parse? (← address.text?)
    return ⟨name, address⟩
  | _ => none

def rootServersOfDocument? : Document → Option (List RootHint)
  | .sequence items => items.mapM (RootHint.ofDocument? source)
  | _ => none

/-- Reads a log format by its name, to the letter. -/
def LogFormat.ofName? (name : String) : Option LogFormat :=
  [LogFormat.text, .json].find? fun f => f.name == name

/-- Reads a log format: its name, or a table with the name and nothing to it. -/
def LogFormat.ofDocument? : Document → Option LogFormat
  | .text name => ofName? name
  | .table [(name, d)] => if source.isNothing d then ofName? name else none
  | _ => none

def ResolverSettings.names : List String :=
  ["root_servers", "dns_port", "query_timeout_ms", "max_query_attempts", "max_indirection",
    "max_nameserver_indirection", "udp_buffer_size", "tcp_fallback", "use_ipv6_nameservers"]

def ResolverSettings.ofDocument? (d : Document) : Option ResolverSettings :=
  let standard : ResolverSettings := {}
  match d.members? source names with
  | some [roots, port, timeout, attempts, aliases, budget, buffer, tcp, ipv6] => do
    let rootServers ← orDefault (rootServersOfDocument? source) standard.rootServers roots
    let port ← orDefault uint16? standard.port port
    let timeout ← orDefault uint64? standard.timeout timeout
    let attempts ← orDefault uint32? standard.attempts attempts
    let maxAliases ← orDefault int32? standard.maxAliases aliases
    let nameserverBudget ← orDefault uint32? standard.nameserverBudget budget
    let bufferSize ← orDefault uint64? standard.bufferSize buffer
    let useTcp ← orDefault bool? standard.useTcp tcp
    let useIpv6 ← orDefault bool? standard.useIpv6 ipv6
    return { rootServers, port, timeout, attempts, maxAliases, nameserverBudget, bufferSize,
             useTcp, useIpv6 }
  | _ => none

def LoggingSettings.ofDocument? (d : Document) : Option LoggingSettings :=
  let standard : LoggingSettings := {}
  match d.members? source ["level", "format"] with
  | some [level, format] => do
    let level ← orDefault text? standard.level level
    let format ← orDefault (LogFormat.ofDocument? source) standard.format format
    return { level, format }
  | _ => none

def Settings.ofDocument? (d : Document) : Option Settings :=
  match d.members? source ["resolver", "logging"] with
  | some [resolver, logging] => do
    let resolver ← orDefault (ResolverSettings.ofDocument? source) {} resolver
    let logging ← orDefault (LoggingSettings.ofDocument? source) {} logging
    return { resolver, logging }
  | _ => none

end IterativeDns
