import IterativeDns.Text.Casing
import IterativeDns.Text.Digits

/-!
# Record types and classes

The type and the class of a record are sixteen-bit codes. The codes that have a mnemonic here
have a constructor of their own; `other` keeps any code without one. A value is *canonical*
when reading its code back gives the value itself, which only fails for an `other` that holds
the code of a mnemonic.

Written text is the mnemonic, or `TYPE` respectively `CLASS` and the code in decimal
(RFC 3597). Types are read in that form too, in any letter case; classes are read as
mnemonics only.
-/

namespace IterativeDns

inductive RecordType where
  | a | ns | cname | soa | ptr | mx | txt | aaaa | srv | opt
  /-- A type without a mnemonic. -/
  | other (code : UInt16)
deriving DecidableEq, Repr, Inhabited

namespace RecordType

/-- The code of a type on the wire. -/
def code : RecordType → UInt16
  | a => 1
  | ns => 2
  | cname => 5
  | soa => 6
  | ptr => 12
  | mx => 15
  | txt => 16
  | aaaa => 28
  | srv => 33
  | opt => 41
  | other code => code

def ofCode (code : UInt16) : RecordType :=
  if code = 1 then a
  else if code = 2 then ns
  else if code = 5 then cname
  else if code = 6 then soa
  else if code = 12 then ptr
  else if code = 15 then mx
  else if code = 16 then txt
  else if code = 28 then aaaa
  else if code = 33 then srv
  else if code = 41 then opt
  else other code

/-- The mnemonic of a type; types without one share the word `OTHER`. -/
def mnemonic : RecordType → String
  | a => "A"
  | ns => "NS"
  | cname => "CNAME"
  | soa => "SOA"
  | ptr => "PTR"
  | mx => "MX"
  | txt => "TXT"
  | aaaa => "AAAA"
  | srv => "SRV"
  | opt => "OPT"
  | other _ => "OTHER"

/-- The text of a type: its mnemonic, or `TYPE` and its code. -/
def text : RecordType → String
  | other code => "TYPE" ++ toString code.toNat
  | t => t.mnemonic

def named : List RecordType :=
  [a, ns, cname, soa, ptr, mx, txt, aaaa, srv, opt]

/-- Reads `TYPE` and a code, in upper case. -/
def ofNumbered? : List Char → Option RecordType
  | 'T' :: 'Y' :: 'P' :: 'E' :: digits =>
    (Text.natUpTo? 65535 digits).map fun n => ofCode (UInt16.ofNat n)
  | _ => none

/-- Reads a type in any letter case. -/
def parse? (s : String) : Option RecordType :=
  let letters := Text.upper s
  match named.find? fun t => t.mnemonic.toList == letters with
  | some t => some t
  | none => ofNumbered? letters

def carriesName : RecordType → Bool
  | ns | cname | mx => true
  | _ => false

def isAddress : RecordType → Bool
  | a | aaaa => true
  | _ => false

/-- Reading a type's code back gives the type. -/
def IsCanonical (t : RecordType) : Prop :=
  ofCode t.code = t

instance (t : RecordType) : Decidable t.IsCanonical :=
  inferInstanceAs (Decidable (ofCode t.code = t))

theorem code_ofCode (c : UInt16) : (ofCode c).code = c := by
  unfold ofCode
  repeat' split
  all_goals first | rfl | simp_all [code]

theorem isCanonical_ofCode (c : UInt16) : (ofCode c).IsCanonical := by
  unfold IsCanonical
  rw [code_ofCode]

example : parse? "nſ" = some .ns := by decide
example : parse? "type+0041" = some .opt := by decide
example : parse? "TYPE65536" = none := by decide

end RecordType

inductive RecordClass where
  | «in» | ch | hs
  /-- A class without a mnemonic. -/
  | other (code : UInt16)
deriving DecidableEq, Repr, Inhabited

namespace RecordClass

/-- The code of a class on the wire. -/
def code : RecordClass → UInt16
  | «in» => 1
  | ch => 3
  | hs => 4
  | other code => code

def ofCode (code : UInt16) : RecordClass :=
  if code = 1 then «in»
  else if code = 3 then ch
  else if code = 4 then hs
  else other code

/-- The text of a class: its mnemonic, or `CLASS` and its code. -/
def text : RecordClass → String
  | «in» => "IN"
  | ch => "CH"
  | hs => "HS"
  | other code => "CLASS" ++ toString code.toNat

/-- Reads a class mnemonic in any letter case. -/
def parse? (s : String) : Option RecordClass :=
  [«in», ch, hs].find? fun c => c.text.toList == Text.upper s

/-- Reading a class's code back gives the class. -/
def IsCanonical (c : RecordClass) : Prop :=
  ofCode c.code = c

instance (c : RecordClass) : Decidable c.IsCanonical :=
  inferInstanceAs (Decidable (ofCode c.code = c))

theorem code_ofCode (c : UInt16) : (ofCode c).code = c := by
  unfold ofCode
  repeat' split
  all_goals first | rfl | simp_all [code]

theorem isCanonical_ofCode (c : UInt16) : (ofCode c).IsCanonical := by
  unfold IsCanonical
  rw [code_ofCode]

example : parse? "ın" = some .«in» := by decide
example : parse? "CLASS3" = none := by decide

end RecordClass

end IterativeDns
