import Calibration.Number.Binary64

/-! # Decimal numbers and the float nearest to one

A decimal is `coefficient * 10 ^ exponent` under a sign. Reading brings the coefficient to its
reduced form first, so the zeros at the end of a written number cannot change what it reads as.
-/
namespace Calibration

structure Decimal where
  negative : Bool
  coefficient : Nat
  exponent : Int
  deriving DecidableEq, Repr

namespace Decimal
open Binary64

def reduce (coefficient : Nat) (exponent : Int) : Nat × Int :=
  if coefficient ≠ 0 ∧ coefficient % 10 = 0 then reduce (coefficient / 10) (exponent + 1)
  else (coefficient, exponent)
termination_by coefficient
decreasing_by omega

/-- The bits of the float nearest to a reduced decimal. No power of ten is computed for an exponent
that lies far outside the range of floats. -/
def reducedBits (coefficient : Nat) (exponent : Int) : Nat :=
  if coefficient = 0 then 0
  else if 400 < exponent then infinityBits
  else if exponent < -(1200 + coefficient.log2) then 0
  else nearestBits (coefficient * Nat.pow 10 exponent.toNat) (Nat.pow 10 (-exponent).toNat)

def magnitudeBits (coefficient : Nat) (exponent : Int) : Nat :=
  let (c, e) := reduce coefficient exponent
  reducedBits c e

def toFloat (d : Decimal) : Float :=
  ofMagnitude d.negative (magnitudeBits d.coefficient d.exponent)

theorem reduce_mul_ten (c : Nat) (e : Int) (h : c ≠ 0) : reduce (c * 10) e = reduce c (e + 1) := by
  rw [reduce]
  have hc : c * 10 ≠ 0 := by omega
  simp [hc]

@[simp] theorem magnitudeBits_mul_ten (c : Nat) (e : Int) (h : c ≠ 0) :
    magnitudeBits (c * 10) e = magnitudeBits c (e + 1) := by
  simp [magnitudeBits, reduce_mul_ten c e h]

end Decimal
end Calibration
