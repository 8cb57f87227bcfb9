/-!
# Fixed-point numerals

A quotient of natural numbers written with a given number of decimal places. The quotient is
rounded to the nearest multiple of the last place and a half goes to the even neighbour.
-/

namespace IterativeDns.Text

/-- The quotient rounded to the nearest number, a half to the even one. -/
def roundDiv (num den : Nat) : Nat :=
  let q := num / den
  let twice := 2 * (num % den)
  if twice < den ∨ (twice = den ∧ q % 2 = 0) then q else q + 1

/-- A number of at most `width` digits with zeros in front up to that width. -/
def zeroPadded (width n : Nat) : String :=
  let digits := toString n
  "".pushn '0' (width - digits.length) ++ digits

/-- `num / den` with `places` decimal places. -/
def fixedPoint (places num den : Nat) : String :=
  let unit := Nat.pow 10 places
  let scaled := roundDiv (num * unit) den
  toString (scaled / unit) ++ "." ++ zeroPadded places (scaled % unit)

/-- Rounding is off by half a unit at most. -/
theorem roundDiv_near {num den : Nat} (h : 0 < den) :
    2 * num ≤ 2 * den * roundDiv num den + den ∧ 2 * den * roundDiv num den ≤ 2 * num + den := by
  have hdiv := Nat.div_add_mod num den
  have hlt := Nat.mod_lt num h
  unfold roundDiv
  simp only
  split
  · next hr =>
    have : 2 * den * (num / den) = 2 * (den * (num / den)) := by rw [Nat.mul_assoc]
    omega
  · next hr =>
    have : 2 * den * (num / den + 1) = 2 * (den * (num / den)) + 2 * den := by
      rw [Nat.mul_add, Nat.mul_assoc]; simp
    omega

end IterativeDns.Text
