import Schemata.Decimal.Basic

/-!
# Decimals that are kept in binary

A decimal is kept to 53 significant bits, and down to the unit `2 ^ -1074`. What is kept is again a
decimal, because a power of two always divides a power of ten.
-/
namespace Schemata

/-- A quotient as the nearest integer; a tie goes to the even one. -/
def roundQuotient (n d : Nat) : Nat :=
  let rest := 2 * (n % d)
  if d < rest ∨ (d = rest ∧ n / d % 2 = 1) then n / d + 1 else n / d

/-- A rounded quotient is at most half a unit below the quotient, or above it. -/
theorem roundQuotient_near (n d : Nat) (hd : 0 < d) :
    2 * n ≤ (2 * roundQuotient n d + 1) * d ∧ 2 * (roundQuotient n d * d) ≤ 2 * n + d := by
  have hn := Nat.div_add_mod n d
  have hlt := Nat.mod_lt n hd
  have hcomm : n / d * d = d * (n / d) := Nat.mul_comm _ _
  by_cases h : d < 2 * (n % d) ∨ (d = 2 * (n % d) ∧ n / d % 2 = 1)
  · have hround : roundQuotient n d = n / d + 1 := by simp [roundQuotient, h]
    rw [hround, Nat.add_mul, Nat.mul_assoc, Nat.add_mul]
    omega
  · have hround : roundQuotient n d = n / d := by simp [roundQuotient, h]
    rw [hround, Nat.add_mul, Nat.mul_assoc]
    omega

/-- The exponent of the last bit that is kept of a positive quotient. -/
def unitExponent (n d : Nat) : Int :=
  let low : Int := (n.log2 : Int) - d.log2 - 53
  let scaled := n * Nat.pow 2 (-low).toNat / (d * Nat.pow 2 low.toNat)
  max (if scaled < Nat.pow 2 53 then low else low + 1) (-1074)

/-- A decimal as far as it is kept. What is too small for its digits to be kept still keeps its
sign. -/
def Decimal.kept (d : Decimal) : Decimal :=
  let scale := Nat.pow 10 d.places
  let exponent := if d.digits = 0 then 0 else unitExponent d.digits scale
  let up := exponent.toNat
  let down := (-exponent).toNat
  let units := roundQuotient (d.digits * Nat.pow 2 down) (scale * Nat.pow 2 up)
  { d with digits := units * Nat.pow 2 up * Nat.pow 5 down, places := down }

end Schemata
