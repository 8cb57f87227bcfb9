import IterativeDns.Settings
import IterativeDns.Text.Truth
import IterativeDns.Toml.Quoted

/-!
# The text of settings

Settings are written as a TOML document with one line for each setting, every root server under
a header of its own. All settings are written, those that have their default value too.
-/

namespace IterativeDns

open Toml

def settingLine (name value : String) : String :=
  name ++ " = " ++ value ++ "\n"

def RootHint.settingsText (h : RootHint) : String :=
  "\n[[resolver.root_servers]]\n"
    ++ settingLine "name" (quote h.name)
    ++ settingLine "address" (quote h.address.text)

/-- The lines of the resolver's settings. A list of root servers that is empty has no headers, so
it gets a line. -/
def ResolverSettings.text (r : ResolverSettings) : String :=
  "[resolver]\n"
    ++ (if r.rootServers.isEmpty then settingLine "root_servers" "[]" else "")
    ++ settingLine "dns_port" (toString r.port.toNat)
    ++ settingLine "query_timeout_ms" (toString r.timeout.toNat)
    ++ settingLine "max_query_attempts" (toString r.attempts.toNat)
    ++ settingLine "max_indirection" (toString r.maxAliases.toInt)
    ++ settingLine "max_nameserver_indirection" (toString r.nameserverBudget.toNat)
    ++ settingLine "udp_buffer_size" (toString r.bufferSize.toNat)
    ++ settingLine "tcp_fallback" (Text.truth r.useTcp)
    ++ settingLine "use_ipv6_nameservers" (Text.truth r.useIpv6)
    ++ String.join (r.rootServers.map RootHint.settingsText)

def LoggingSettings.text (l : LoggingSettings) : String :=
  "[logging]\n"
    ++ settingLine "level" (quote l.level)
    ++ settingLine "format" (quote l.format.name)

def Settings.text (s : Settings) : String :=
  s.resolver.text ++ "\n" ++ s.logging.text

end IterativeDns
