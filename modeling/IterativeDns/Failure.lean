import IterativeDns.ResponseCode

/-!
# Failures

Why something could not be done, as a cause; the wording of each cause is in one function.
-/

namespace IterativeDns

/-- What can be wrong with a configuration. -/
inductive SettingsFailure where
  | unreadable (path reason : String)
  | unwritable (path reason : String)
  /-- A text is no configuration. -/
  | malformed (reason : String)
  /-- A value is out of the question. -/
  | invalid (reason : String)
deriving DecidableEq, Repr

def SettingsFailure.message : SettingsFailure → String
  | unreadable path reason => "Failed to read config file " ++ path ++ ": " ++ reason
  | unwritable path reason => "Failed to write config file " ++ path ++ ": " ++ reason
  | malformed reason => "Failed to parse config: " ++ reason
  | invalid reason => "Configuration validation error: " ++ reason

/-- Why a name, a message, an exchange or a lookup failed. -/
inductive Failure where
  /-- A text cannot be written as a name. -/
  | invalidName (reason : String)
  /-- Octets are no message, or a message cannot be written. -/
  | malformedMessage (reason : String)
  | errorResponse (rcode : ResponseCode) (server : String)
  /-- A chain of aliases was longer than allowed. -/
  | tooManyAliases (limit : Int)
  /-- Sending to or receiving from a server failed. -/
  | transport (server reason : String)
  /-- The configuration is at fault. -/
  | settings (reason : String)
deriving DecidableEq, Repr

def Failure.message : Failure → String
  | invalidName reason => "Invalid domain name: " ++ reason
  | malformedMessage reason => "Malformed DNS message: " ++ reason
  | errorResponse rcode server => "Server " ++ server ++ " answered with " ++ rcode.text
  | tooManyAliases limit => "CNAME indirection limit of " ++ toString limit ++ " exceeded"
  | transport server reason => "Transport failure talking to " ++ server ++ ": " ++ reason
  | settings reason => "Configuration error: " ++ reason

/-- A failure with the configuration as a failure of the program. -/
def SettingsFailure.toFailure (f : SettingsFailure) : Failure :=
  .settings f.message

end IterativeDns
