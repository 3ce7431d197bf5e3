/-!
# Decimals

A decimal is a number of which some digits stand behind the point. Its sign is kept apart from its
digits, because zero has two signs: both zeros are the same number, and they are written
differently.
-/
namespace Schemata

structure Decimal where
  negative : Bool
  /-- All digits, those behind the point among them. -/
  digits : Nat
  /-- How many digits stand behind the point. -/
  places : Nat
  deriving DecidableEq, Repr

namespace Decimal

/-- The digits and the sign as one integer. -/
def numerator (d : Decimal) : Int := if d.negative then -d.digits else d.digits

/-- The integer that a decimal is if it has no rest. -/
def whole? (d : Decimal) : Option Int :=
  let scale : Int := Nat.pow 10 d.places
  if d.numerator % scale = 0 then some (d.numerator / scale) else none

theorem whole?_eq_some_iff {d : Decimal} {n : Int} :
    d.whole? = some n ↔ d.numerator = n * Nat.pow 10 d.places := by
  have hscale : (Nat.pow 10 d.places : Int) ≠ 0 :=
    Int.ofNat_ne_zero.2 (Nat.ne_of_gt (Nat.pow_pos (by decide)))
  constructor
  · intro h
    simp only [whole?, Option.ite_none_right_eq_some, Option.some.injEq] at h
    rw [← h.2, Int.ediv_mul_cancel (Int.dvd_of_emod_eq_zero h.1)]
  · intro h
    rw [whole?, h, Int.mul_emod_left, Int.mul_ediv_cancel n hscale, if_pos rfl]

/-- The decimals lie equally far from zero, however many digits they have. -/
def SameSize (a b : Decimal) : Prop :=
  a.digits * Nat.pow 10 b.places = b.digits * Nat.pow 10 a.places

instance (a b : Decimal) : Decidable (a.SameSize b) :=
  inferInstanceAs (Decidable (_ = _))

@[refl] theorem SameSize.refl (a : Decimal) : a.SameSize a := rfl

theorem SameSize.symm {a b : Decimal} (h : a.SameSize b) : b.SameSize a := Eq.symm h

theorem SameSize.trans {a b c : Decimal} (hab : a.SameSize b) (hbc : b.SameSize c) :
    a.SameSize c := by
  have hb : 0 < Nat.pow 10 b.places := Nat.pow_pos (by decide)
  refine Nat.eq_of_mul_eq_mul_right hb ?_
  rw [SameSize] at hab hbc
  rw [Nat.mul_right_comm, hab, Nat.mul_right_comm, hbc, Nat.mul_right_comm]

end Decimal

end Schemata
