/-!
# Documents

A document is what a configuration format can write: scalars, sequences, and tables of named
values. It stands between the formats and the settings, so that settings are read from it by
one set of rules, whatever they were written in. Where the formats go apart, the rules ask
which of them it is.
-/

namespace IterativeDns

/-- A value of a configuration format. -/
inductive Document where
  | null
  | bool (b : Bool)
  | integer (n : Int)
  /-- A number with a fraction or an exponent, as it was written. -/
  | float (numeral : String)
  /-- Something written like a number that stands for none, such as one too large. A document may
  have it only where nobody looks. -/
  | unreadable
  | text (s : String)
  /-- A date, a time of day, or both, as it was written. -/
  | moment (s : String)
  | sequence (items : List Document)
  | table (members : List (String × Document))
deriving Inhabited

namespace Document

mutual

def isReadable : Document → Bool
  | .unreadable => false
  | .sequence items => areReadable items
  | .table members => areReadableMembers members
  | _ => true

def areReadable : List Document → Bool
  | [] => true
  | d :: ds => d.isReadable && areReadable ds

def areReadableMembers : List (String × Document) → Bool
  | [] => true
  | (_, d) :: members => d.isReadable && areReadableMembers members

end

end Document

inductive DocumentFormat where
  | json | toml
deriving DecidableEq, Repr

namespace DocumentFormat

/-- A sequence may go on after the values that are asked for. -/
def allowsSurplus : DocumentFormat → Bool
  | .json => false
  | .toml => true

/-- A value that says nothing beyond the name it is given. -/
def isNothing : DocumentFormat → Document → Bool
  | .json, .null => true
  | .toml, .sequence [] => true
  | .toml, .table [] => true
  | _, _ => false

end DocumentFormat

end IterativeDns
