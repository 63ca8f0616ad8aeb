/-! # Binary64 values as exact numbers

Below its sign a finite float is `significand * 2 ^ exponent`. Rounding goes the other way: the
quotient of two naturals to the nearest float, halves to the even significand. Both are plain
arithmetic on naturals, with the bits as the common currency.
-/
namespace Calibration.Binary64

/-- The bits of an infinity below its sign; every larger word is not a number. -/
def infinityBits : Nat := 0x7ff0000000000000

def signBit : Nat := 0x8000000000000000

def hiddenBit : Nat := 0x10000000000000

def isNegative (x : Float) : Bool := decide (signBit ≤ x.toBits.toNat)

def magnitudeBits (x : Float) : Nat := x.toBits.toNat % signBit

def ofMagnitude (negative : Bool) (bits : Nat) : Float :=
  Float.ofBits (UInt64.ofNat (if negative then signBit + bits else bits))

/-- The number `significand * 2 ^ exponent`. -/
structure Scaled where
  significand : Nat
  exponent : Int
  deriving DecidableEq, Repr

namespace Scaled

def ofBits (bits : Nat) : Scaled :=
  if bits < hiddenBit then ⟨bits, -1074⟩
  else ⟨hiddenBit + bits % hiddenBit, (bits / hiddenBit : Nat) - 1075⟩

/-- A significand that has reached `2 ^ 53` carries into the exponent by itself. -/
def toBits (s : Scaled) : Nat := (s.exponent + 1074).toNat * hiddenBit + s.significand

def numerator (s : Scaled) : Nat := s.significand * Nat.pow 2 s.exponent.toNat
def denominator (s : Scaled) : Nat := Nat.pow 2 (-s.exponent).toNat

theorem toBits_ofBits (bits : Nat) : (ofBits bits).toBits = bits := by
  unfold ofBits toBits hiddenBit
  split
  · simp
  · simp only
    omega

end Scaled

def divHalfEven (num den : Nat) : Nat :=
  let quotient := num / den
  let twice := 2 * (num % den)
  if den < twice ∨ (twice = den ∧ quotient % 2 = 1) then quotient + 1 else quotient

/-- `⌊log₂ (num / den)⌋` of two positive naturals. -/
def floorLog (num den : Nat) : Int :=
  let e : Int := (num.log2 : Int) - den.log2
  if den * Nat.pow 2 e.toNat ≤ num * Nat.pow 2 (-e).toNat then e else e - 1

/-- The exponent at which `num / den` is rounded: that of a significand of 53 bits, or the least
one there is. -/
def lastPlace (num den : Nat) : Int := max (floorLog num den - 52) (-1074)

/-- The bits of the float nearest to `num / den`; past the largest float they are the infinity's. -/
def nearestBits (num den : Nat) : Nat :=
  if num = 0 then 0
  else
    let place := lastPlace num den
    let significand := divHalfEven (num * Nat.pow 2 (-place).toNat) (den * Nat.pow 2 place.toNat)
    min (Scaled.mk significand place).toBits infinityBits

def ofInt (n : Int) : Float := ofMagnitude (decide (n < 0)) (nearestBits n.natAbs 1)

/-- The integer nearest to `x`, a half away from zero, brought into the range of 64 bits. -/
def roundToInt64 (x : Float) : Int64 :=
  let bits := magnitudeBits x
  if infinityBits < bits then 0
  else
    let s := Scaled.ofBits bits
    let magnitude := (2 * s.numerator + s.denominator) / (2 * s.denominator)
    let value : Int := if isNegative x then -magnitude else magnitude
    Int64.ofInt (max Int64.minValue.toInt (min value Int64.maxValue.toInt))

end Calibration.Binary64
