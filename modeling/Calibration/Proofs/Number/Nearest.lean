import Calibration.Number.Binary64
import Mathlib.Algebra.Order.Field.Power
import Mathlib.Tactic.Positivity
import Mathlib.Tactic.Ring

/-! # Rounding a number that is a float

The float nearest to the value of a float is that float again, however the value is written as a quotient.
Rounding is settled by the power of two below the quotient, from which the place of the last bit follows.
-/
namespace Calibration.Binary64

def Scaled.value (s : Scaled) : ℚ := s.significand * 2 ^ s.exponent

/-- A power as a quotient of naturals. -/
theorem zpow_mul_pow_toNat_neg {b : ℚ} (hb : b ≠ 0) (e : Int) :
    b ^ e * b ^ (-e).toNat = b ^ e.toNat := by
  rw [← zpow_natCast, ← zpow_natCast, ← zpow_add₀ hb]
  congr 1
  omega

theorem zpow_le_iff {num den : Nat} (e : Int) :
    den * 2 ^ e.toNat ≤ num * 2 ^ (-e).toNat ↔ (2 : ℚ) ^ e * den ≤ num := by
  have hpos : (0 : ℚ) < 2 ^ (-e).toNat := by positivity
  rw [← Nat.cast_le (α := ℚ)]
  push_cast
  rw [← zpow_mul_pow_toNat_neg two_ne_zero, ← mul_assoc, mul_le_mul_iff_left₀ hpos, mul_comm]

/-- The quotient lies between this power of two and the next. -/
theorem floorLog_spec {num den : Nat} (hnum : 0 < num) (hden : 0 < den) :
    (2 : ℚ) ^ floorLog num den * den ≤ num ∧ (num : ℚ) < 2 ^ (floorLog num den + 1) * den := by
  have hnum₁ : (2 : ℚ) ^ (num.log2 : Int) ≤ num := by
    rw [zpow_natCast]
    exact_mod_cast Nat.log2_self_le hnum.ne'
  have hnum₂ : (num : ℚ) < 2 ^ ((num.log2 : Int) + 1) := by
    exact_mod_cast Nat.lt_log2_self (n := num)
  have hden₁ : (2 : ℚ) ^ (den.log2 : Int) ≤ den := by
    rw [zpow_natCast]
    exact_mod_cast Nat.log2_self_le hden.ne'
  have hden₂ : (den : ℚ) < 2 ^ ((den.log2 : Int) + 1) := by
    exact_mod_cast Nat.lt_log2_self (n := den)
  have hcases : den * 2 ^ ((num.log2 : Int) - den.log2).toNat ≤
      num * 2 ^ (-((num.log2 : Int) - den.log2)).toNat ↔
        (2 : ℚ) ^ ((num.log2 : Int) - den.log2) * den ≤ num := zpow_le_iff _
  unfold floorLog
  dsimp only
  split
  · next h =>
    refine ⟨hcases.1 h, ?_⟩
    calc (num : ℚ) < 2 ^ ((num.log2 : Int) + 1) := hnum₂
      _ = 2 ^ ((num.log2 : Int) - den.log2 + 1) * 2 ^ (den.log2 : Int) := by
        rw [← zpow_add₀ two_ne_zero]
        congr 1
        omega
      _ ≤ 2 ^ ((num.log2 : Int) - den.log2 + 1) * den := by gcongr
  · next h =>
    have hlt := lt_of_not_ge (mt hcases.2 h)
    rw [sub_add_cancel]
    refine ⟨?_, hlt⟩
    calc (2 : ℚ) ^ ((num.log2 : Int) - den.log2 - 1) * den
        ≤ 2 ^ ((num.log2 : Int) - den.log2 - 1) * 2 ^ ((den.log2 : Int) + 1) := by gcongr
      _ = 2 ^ (num.log2 : Int) := by
        rw [← zpow_add₀ two_ne_zero]
        congr 1
        omega
      _ ≤ num := hnum₁

/-- The power of two below a quotient is known from any bounds that leave room for only one. -/
theorem floorLog_eq {num den : Nat} {f : Int} (hnum : 0 < num) (hden : 0 < den)
    (hlow : (2 : ℚ) ^ f * den ≤ num) (hhigh : (num : ℚ) < 2 ^ (f + 1) * den) :
    floorLog num den = f := by
  obtain ⟨hlow', hhigh'⟩ := floorLog_spec hnum hden
  have hpos : (0 : ℚ) < den := by exact_mod_cast hden
  have hle : f < floorLog num den + 1 :=
    (zpow_lt_zpow_iff_right₀ one_lt_two).1 (lt_of_mul_lt_mul_right (hlow.trans_lt hhigh') hpos.le)
  have hge : floorLog num den < f + 1 :=
    (zpow_lt_zpow_iff_right₀ one_lt_two).1 (lt_of_mul_lt_mul_right (hlow'.trans_lt hhigh) hpos.le)
  omega

theorem floorLog_lt {num den : Nat} {f : Int} (hnum : 0 < num) (hden : 0 < den)
    (hhigh : (num : ℚ) < 2 ^ f * den) : floorLog num den < f := by
  obtain ⟨hlow, -⟩ := floorLog_spec hnum hden
  have hpos : (0 : ℚ) < den := by exact_mod_cast hden
  exact (zpow_lt_zpow_iff_right₀ one_lt_two).1
    (lt_of_mul_lt_mul_right (hlow.trans_lt hhigh) hpos.le)

/-- A float keeps 53 bits unless its exponent is the least. -/
structure Scaled.Canonical (s : Scaled) : Prop where
  pos : 0 < s.significand
  lt : s.significand < 2 ^ 53
  least : -1074 ≤ s.exponent
  full : s.exponent = -1074 ∨ 2 ^ 52 ≤ s.significand

theorem Scaled.canonical_ofBits {bits : Nat} (h : 0 < bits) : (Scaled.ofBits bits).Canonical := by
  unfold Scaled.ofBits
  by_cases hlt : bits < hiddenBit
  · rw [if_pos hlt]
    unfold hiddenBit at hlt
    exact ⟨h, by dsimp only; omega, le_refl _, .inl rfl⟩
  · rw [if_neg hlt]
    unfold hiddenBit at hlt ⊢
    exact ⟨by dsimp only; omega, by dsimp only; omega, by dsimp only; omega,
      .inr (by dsimp only; omega)⟩

theorem divHalfEven_mul_self (n den : Nat) (hden : 0 < den) : divHalfEven (n * den) den = n := by
  unfold divHalfEven
  have hdiv : n * den / den = n := Nat.mul_div_cancel n hden
  have hmod : n * den % den = 0 := Nat.mul_mod_left n den
  simp only [hdiv, hmod]
  rw [if_neg]
  omega

section Value
variable {num den : Nat} {s : Scaled} (hden : 0 < den) (hs : s.Canonical)
  (hvalue : (num : ℚ) = s.value * den)
include hden hs hvalue

theorem num_pos_of_value : 0 < num := by
  have hsig : (0 : ℚ) < s.significand := by exact_mod_cast hs.pos
  have hden' : (0 : ℚ) < den := by exact_mod_cast hden
  have hnum : (0 : ℚ) < num := by
    rw [hvalue, Scaled.value]
    positivity
  exact_mod_cast hnum

theorem lastPlace_of_value : lastPlace num den = s.exponent := by
  have hnum := num_pos_of_value hden hs hvalue
  have hden' : (0 : ℚ) < den := by exact_mod_cast hden
  have hleast := hs.least
  have hlt : (s.significand : ℚ) < 2 ^ (53 : ℤ) := by exact_mod_cast hs.lt
  have hhigh : (num : ℚ) < 2 ^ (s.exponent + 52 + 1) * den := by
    rw [hvalue, Scaled.value, show s.exponent + 52 + 1 = 53 + s.exponent by ring,
      zpow_add₀ two_ne_zero]
    gcongr
  unfold lastPlace
  rcases hs.full with hexp | hfull
  · -- With the least exponent the significand may be short, and then the place is kept from falling.
    have hlog := floorLog_lt hnum hden hhigh
    omega
  · have hge : (2 : ℚ) ^ (52 : ℤ) ≤ s.significand := by exact_mod_cast hfull
    have hlow : (2 : ℚ) ^ (s.exponent + 52) * den ≤ num := by
      rw [hvalue, Scaled.value, show s.exponent + 52 = 52 + s.exponent by ring,
        zpow_add₀ two_ne_zero]
      gcongr
    have hlog := floorLog_eq hnum hden hlow hhigh
    omega

theorem nearestBits_of_value (hfinite : s.toBits < infinityBits) : nearestBits num den = s.toBits := by
  have hnum := num_pos_of_value hden hs hvalue
  have hscaled : num * 2 ^ (-s.exponent).toNat = s.significand * (den * 2 ^ s.exponent.toNat) := by
    have hrat : (num : ℚ) * 2 ^ (-s.exponent).toNat =
        s.significand * (den * 2 ^ s.exponent.toNat) := by
      rw [hvalue, Scaled.value, ← zpow_mul_pow_toNat_neg two_ne_zero s.exponent]
      ring
    exact_mod_cast hrat
  have hdenpos : 0 < den * 2 ^ s.exponent.toNat := Nat.mul_pos hden (Nat.two_pow_pos _)
  unfold nearestBits
  rw [if_neg hnum.ne', lastPlace_of_value hden hs hvalue]
  dsimp only [Nat.pow_eq]
  rw [hscaled, divHalfEven_mul_self _ _ hdenpos]
  exact min_eq_left hfinite.le

end Value

end Calibration.Binary64
