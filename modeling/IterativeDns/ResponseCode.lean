/-!
# Response codes

The verdict in a response's header. On the wire a code has four bits; a code without a
mnemonic keeps the number it was made from, and only writing it cuts the number down.
-/

namespace IterativeDns

/-- The verdict of a server. -/
inductive ResponseCode where
  | noError | formatError | serverFailure | nameError | notImplemented | refused
  /-- A code without a mnemonic. -/
  | other (number : UInt8)
deriving DecidableEq, Repr, Inhabited

namespace ResponseCode

/-- The code with the low four bits of a number. -/
def ofNumber (number : UInt8) : ResponseCode :=
  let low := number % 16
  if low = 0 then noError
  else if low = 1 then formatError
  else if low = 2 then serverFailure
  else if low = 3 then nameError
  else if low = 4 then notImplemented
  else if low = 5 then refused
  else other low

def number : ResponseCode → UInt8
  | noError => 0
  | formatError => 1
  | serverFailure => 2
  | nameError => 3
  | notImplemented => 4
  | refused => 5
  | other n => n % 16

/-- The text of a code: its mnemonic, or `RCODE` and the number it was made from. -/
def text : ResponseCode → String
  | noError => "NOERROR"
  | formatError => "FORMERR"
  | serverFailure => "SERVFAIL"
  | nameError => "NXDOMAIN"
  | notImplemented => "NOTIMP"
  | refused => "REFUSED"
  | other n => "RCODE" ++ toString n.toNat

/-- Every code but `noError` is an error. -/
def isError (c : ResponseCode) : Bool :=
  c ≠ .noError

end ResponseCode

end IterativeDns
