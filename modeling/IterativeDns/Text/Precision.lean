import IterativeDns.Text.FixedPoint

/-!
# Numbers of limited precision

Machines keep a number as a fraction with 53 binary digits and an exponent of bounded size. Two
things of that show in what is read and written, and both are computed exactly here: which of
those fractions is nearest to a quotient, and whether a decimal is too large for all of them.
-/

namespace IterativeDns.Text

/-! ### The nearest fraction -/

/-- How many binary digits a fraction has. -/
def precision : Nat := 53

/-- The fraction of `precision` binary digits that is nearest to `num / den`, a half going to the
even one, as a numerator and a denominator. The quotient is scaled by a power of two until its
whole part has that many digits, which takes one of two neighbouring powers. -/
def nearestFraction (num den : Nat) : Nat × Nat :=
  let up := Nat.pow 2 (precision + den.log2 - num.log2)
  let down := Nat.pow 2 (num.log2 - (precision + den.log2))
  let digits := num * up / (den * down)
  let down := if digits < Nat.pow 2 precision then down else 2 * down
  (roundDiv (num * up) (den * down) * down, up)

example : nearestFraction 1 2 = (Nat.pow 2 53, Nat.pow 2 54) := by decide +kernel
example : nearestFraction 1 3 = (6004799503160661, Nat.pow 2 54) := by decide +kernel
example : nearestFraction 9007199254740993 1 = (9007199254740992, 1) := by decide +kernel

/-! ### Decimals out of range -/

/-- The least number that is rounded beyond the largest fraction: half a step above it, where a
half would go to the even neighbour. -/
def overflowBound : Nat :=
  (Nat.pow 2 54 - 1) * Nat.pow 2 970

/-- `mantissa` times ten to `exponent` is too large for every fraction. Only a number as long as
the bound has to be computed. -/
def overflows (mantissa : Nat) (exponent : Int) : Bool :=
  let length (n : Nat) : Int := (Nat.toDigits 10 n).length
  if mantissa = 0 then false
  else if length mantissa + exponent < length overflowBound then false
  else if length overflowBound < length mantissa + exponent then true
  else overflowBound * Nat.pow 10 (-exponent).toNat ≤ mantissa * Nat.pow 10 exponent.toNat

example : overflows 17976931348623158 292 = false := by decide +kernel
example : overflows 17976931348623159 292 = true := by decide +kernel
example : overflows 0 400 = false := by decide +kernel

end IterativeDns.Text
