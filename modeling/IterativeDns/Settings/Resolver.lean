import IterativeDns.Alias
import IterativeDns.Cache.RootHints
import IterativeDns.Exchange
import IterativeDns.Lookup
import IterativeDns.Settings

/-!
# Resolvers from settings

What settings say about exchanges, about lookups, and about where a resolver starts.
-/

namespace IterativeDns.Settings

variable {σ : Type}

/-- How exchanges are made. -/
def exchangeSettings (s : Settings) : ExchangeSettings where
  port := s.resolver.port
  timeout := s.resolver.timeout.toNat
  attempts := s.resolver.attempts.toNat
  bufferSize := s.resolver.bufferSize.toNat
  useTcp := s.resolver.useTcp

/-- How lookups are made over a network. -/
def toResolver (s : Settings) (net : Network σ) (time : Timeline) (maxRounds : Nat) :
    Resolver (Link σ) where
  client := Exchange.client net s.exchangeSettings time
  useIpv6 := s.resolver.useIpv6
  budget := s.resolver.nameserverBudget.toNat
  maxRounds := maxRounds

/-- What a resolver knows before its first lookup. -/
def startCache (s : Settings) : Cache :=
  Cache.ofRootHints s.resolver.rootServers

/-- Where a resolver starts: connected to the network, and with the root servers in its cache. -/
def startSession (s : Settings) (world : σ) : Session (Link σ) where
  client := { world }
  cache := s.startCache

/-- How many aliases are followed in a row if nothing else is said. -/
def aliasLimit (s : Settings) : Int :=
  s.resolver.maxAliases.toInt

end IterativeDns.Settings
