/-!
# Digits and numerals

Digits up to base sixteen and the numerals written with them. A numeral is a non-empty run of
digits; readers that also take a sign say so.
-/

namespace IterativeDns.Text

/-- The value of a digit, hexadecimal ones in either case. -/
def digit? (c : Char) : Option Nat :=
  if '0' ≤ c ∧ c ≤ '9' then some (c.toNat - '0'.toNat)
  else if 'a' ≤ c ∧ c ≤ 'f' then some (c.toNat - 'a'.toNat + 10)
  else if 'A' ≤ c ∧ c ≤ 'F' then some (c.toNat - 'A'.toNat + 10)
  else none

/-- The value of a digit of the given base. -/
def digitBelow? (base : Nat) (c : Char) : Option Nat :=
  (digit? c).filter (· < base)

/-- The value of the digits `cs` written after a number `acc`. -/
def numeralFrom? (base : Nat) : Nat → List Char → Option Nat
  | acc, [] => some acc
  | acc, c :: cs => do
    let d ← digitBelow? base c
    numeralFrom? base (acc * base + d) cs

/-- The value of a numeral: at least one digit, and nothing but digits. -/
def numeral? (base : Nat) (cs : List Char) : Option Nat :=
  if cs.isEmpty then none else numeralFrom? base 0 cs

/-- A natural number of at most `max`, written in decimal; a plus sign may stand in front and
leading zeros are allowed. -/
def natUpTo? (max : Nat) (cs : List Char) : Option Nat :=
  let digits := match cs with
    | '+' :: rest => rest
    | _ => cs
  (numeral? 10 digits).filter (· ≤ max)

/-- An integer written in decimal; a sign may stand in front. -/
def int? : List Char → Option Int
  | '+' :: rest => (numeral? 10 rest).map Int.ofNat
  | '-' :: rest => (numeral? 10 rest).map fun n => -Int.ofNat n
  | cs => (numeral? 10 cs).map Int.ofNat

/-- An integer between `lo` and `hi`, written in decimal; a sign may stand in front. -/
def intWithin? (lo hi : Int) (cs : List Char) : Option Int :=
  (int? cs).filter fun n => lo ≤ n ∧ n ≤ hi

/-- The lower-case hexadecimal numeral of a number, without leading zeros. -/
def hexNumeral (n : Nat) : String :=
  String.ofList (Nat.toDigits 16 n)

example : natUpTo? 65535 "+0028".toList = some 28 := by decide
example : natUpTo? 65535 "65536".toList = none := by decide
example : natUpTo? 65535 "+".toList = none := by decide
example : intWithin? (-128) 127 "-128".toList = some (-128) := by decide

end IterativeDns.Text
