import Calibration.Number.Shortest
import Calibration.Proofs.Number.Nearest

/-! # Reading the shortest decimal of a float

The decimal that is written for a float is one of which reading back has been tried, or the value of the
float itself. Both read as the float again.
-/
namespace Calibration

namespace Decimal
open Binary64

theorem reduce_reduce (c : Nat) (e : Int) :
    reduce (reduce c e).1 (reduce c e).2 = reduce c e := by
  induction c, e using reduce.induct with
  | case1 c e h ih =>
    have hstep : reduce c e = reduce (c / 10) (e + 1) := by rw [reduce, if_pos h]
    rw [hstep, ih]
  | case2 c e h =>
    have hself : reduce c e = (c, e) := by rw [reduce, if_neg h]
    rw [hself, hself]

theorem magnitudeBits_reduce (c : Nat) (e : Int) :
    magnitudeBits (reduce c e).1 (reduce c e).2 = magnitudeBits c e := by
  unfold magnitudeBits
  rw [reduce_reduce]

/-- Reducing a coefficient keeps the number and raises the exponent at most. -/
theorem reduce_value (c : Nat) (e : Int) :
    ((reduce c e).1 : ℚ) * 10 ^ (reduce c e).2 = c * 10 ^ e ∧ e ≤ (reduce c e).2 := by
  induction c, e using reduce.induct with
  | case1 c e h ih =>
    rw [reduce, if_pos h]
    obtain ⟨hvalue, hle⟩ := ih
    have hc : (c : ℚ) = (c / 10 : ℕ) * 10 := by
      have hdvd : c / 10 * 10 = c := Nat.div_mul_cancel (Nat.dvd_of_mod_eq_zero h.2)
      exact_mod_cast hdvd.symm
    refine ⟨?_, by omega⟩
    rw [hvalue, hc, zpow_add_one₀ (by norm_num)]
    ring
  | case2 c e h =>
    rw [reduce, if_neg h]
    exact ⟨rfl, le_refl e⟩

theorem magnitudeBits_zero (e : Int) : magnitudeBits 0 e = 0 := by
  unfold magnitudeBits
  rw [reduce, if_neg (by simp)]
  rfl

/-- A decimal that is the value of a float reads as that float. -/
theorem magnitudeBits_of_value {c : Nat} {e : Int} {s : Scaled} (hs : s.Canonical)
    (hfinite : s.toBits < infinityBits) (he : -1200 ≤ e) (hvalue : (c : ℚ) * 10 ^ e = s.value) :
    magnitudeBits c e = s.toBits := by
  obtain ⟨hreduced, hle⟩ := reduce_value c e
  unfold magnitudeBits
  generalize reduce c e = r at hreduced hle
  obtain ⟨c', e'⟩ := r
  dsimp only at hreduced hle ⊢
  rw [hvalue] at hreduced
  have hsig : (0 : ℚ) < s.significand := by exact_mod_cast hs.pos
  have hpos : 0 < s.value := by
    unfold Scaled.value
    positivity
  have hc : c' ≠ 0 := by
    rintro rfl
    rw [Nat.cast_zero, zero_mul] at hreduced
    exact hpos.ne hreduced
  -- No finite float is as large as the first power of ten that is not computed.
  have hexp : s.exponent ≤ 972 := by
    have hleast := hs.least
    unfold Scaled.toBits infinityBits hiddenBit at hfinite
    omega
  have hlarge : e' ≤ 400 := by
    by_contra hcon
    have hone : (1 : ℚ) ≤ c' := by exact_mod_cast Nat.one_le_iff_ne_zero.2 hc
    have hten : (10 : ℚ) ^ (401 : ℤ) ≤ s.value :=
      calc (10 : ℚ) ^ (401 : ℤ) ≤ 10 ^ e' := zpow_le_zpow_right₀ (by norm_num) (by omega)
        _ ≤ c' * 10 ^ e' := le_mul_of_one_le_left (by positivity) hone
        _ = s.value := hreduced
    have htwo : s.value < 2 ^ (53 : ℤ) * 2 ^ (972 : ℤ) := by
      have hsig' : (s.significand : ℚ) < 2 ^ (53 : ℤ) := by exact_mod_cast hs.lt
      have hpow : (2 : ℚ) ^ s.exponent ≤ 2 ^ (972 : ℤ) :=
        zpow_le_zpow_right₀ (by norm_num) hexp
      unfold Scaled.value
      exact mul_lt_mul hsig' hpow (by positivity) (by positivity)
    have hgap : (2 : ℚ) ^ (53 : ℤ) * 2 ^ (972 : ℤ) ≤ 10 ^ (401 : ℤ) := by
      have hnat : 2 ^ 53 * 2 ^ 972 ≤ 10 ^ 401 := by decide +kernel
      simp only [zpow_ofNat]
      exact_mod_cast hnat
    exact absurd (hten.trans_lt htwo) (not_lt.2 hgap)
  unfold reducedBits
  rw [if_neg hc, if_neg (by omega), if_neg (by omega)]
  refine nearestBits_of_value (Nat.pow_pos (by norm_num)) hs ?_ hfinite
  rw [← hreduced]
  push_cast [Nat.pow_eq]
  rw [← zpow_mul_pow_toNat_neg (b := 10) (by norm_num) e']
  ring

end Decimal

namespace Shortest
open Binary64 Decimal

theorem magnitudeBits_of_candidate? {tie : Tie} {s : Scaled} {place : Int} {c : Nat}
    (h : candidate? tie s place = some c) : magnitudeBits c place = s.toBits := by
  unfold candidate? at h
  dsimp only at h
  split at h
  · next hbelow habove =>
    have hbelow := of_decide_eq_true hbelow
    have habove := of_decide_eq_true habove
    split at h
    · cases h
      exact hbelow
    · split at h
      · cases h
        exact habove
      · cases tie with
        | away =>
          cases h
          exact habove
        | even =>
          simp only [Option.some.injEq] at h
          rcases Nat.mod_two_eq_zero_or_one
            (s.numerator * Nat.pow 10 (-place).toNat / (s.denominator * Nat.pow 10 place.toNat))
            with hmod | hmod
          · rw [hmod, Nat.add_zero] at h
            rw [← h, hbelow]
          · rw [hmod] at h
            rw [← h, habove]
  · next hbelow _ =>
    cases h
    exact of_decide_eq_true hbelow
  · next habove =>
    cases h
    exact of_decide_eq_true habove
  · cases h

/-- The point of the finest grid is the value itself. -/
theorem finest_value (s : Scaled) :
    ((s.numerator * 10 ^ (-finest s).toNat / (s.denominator * 10 ^ (finest s).toNat) : ℕ) : ℚ) *
      10 ^ finest s = s.value := by
  unfold finest Scaled.numerator Scaled.denominator Scaled.value
  dsimp only [Nat.pow_eq]
  rcases le_total 0 s.exponent with h | h
  · obtain ⟨n, hn⟩ := Int.eq_ofNat_of_zero_le h
    rw [hn]
    simp
  · obtain ⟨n, hn⟩ := Int.eq_ofNat_of_zero_le (Int.neg_nonneg_of_nonpos h)
    have hexp : s.exponent = -n := by omega
    have hten : (10 : ℕ) ^ n = 5 ^ n * 2 ^ n := Nat.mul_pow 5 2 n
    have hdiv : s.significand * 10 ^ n / 2 ^ n = s.significand * 5 ^ n := by
      rw [hten, ← mul_assoc, Nat.mul_div_cancel _ (Nat.two_pow_pos n)]
    have hrat : (5 : ℚ) ^ n * 2 ^ n = 10 ^ n := by exact_mod_cast hten.symm
    have hcancel : (5 : ℚ) ^ n * (10 ^ n)⁻¹ = (2 ^ n)⁻¹ := by
      rw [← hrat, mul_inv, ← mul_assoc, mul_inv_cancel₀ (by positivity), one_mul]
    rw [hexp]
    simp [hdiv, mul_assoc, hcancel]

theorem magnitudeBits_search (tie : Tie) {s : Scaled} (hs : s.Canonical)
    (hfinite : s.toBits < infinityBits) (steps : Nat) (place : Int)
    (hplace : place - steps = finest s) :
    magnitudeBits (search tie s place steps).1 (search tie s place steps).2 = s.toBits := by
  induction steps generalizing place with
  | zero =>
    obtain rfl : place = finest s := by simpa using hplace
    have hle : -1200 ≤ finest s := by
      have hleast := hs.least
      unfold finest
      omega
    exact magnitudeBits_of_value hs hfinite hle (finest_value s)
  | succ steps ih =>
    unfold search
    cases hc : candidate? tie s place with
    | some c => exact magnitudeBits_of_candidate? hc
    | none => exact ih (place - 1) (by push_cast at hplace; omega)

theorem finest_le_coarsest (s : Scaled) : finest s ≤ coarsest s := by
  unfold finest coarsest
  omega

/-- What is written for a float reads as that float. -/
theorem magnitudeBits_ofBits (tie : Tie) {bits : Nat} (hbits : 0 < bits) (hfinite : bits < infinityBits) :
    magnitudeBits (ofBits tie bits).1 (ofBits tie bits).2 = bits := by
  have hsame : (Scaled.ofBits bits).toBits = bits := Scaled.toBits_ofBits bits
  have hle := finest_le_coarsest (Scaled.ofBits bits)
  have hsearch := magnitudeBits_search tie (Scaled.canonical_ofBits hbits) (hsame.symm ▸ hfinite)
    (coarsest (Scaled.ofBits bits) - finest (Scaled.ofBits bits)).toNat
    (coarsest (Scaled.ofBits bits)) (by omega)
  unfold ofBits
  dsimp only
  rw [magnitudeBits_reduce, hsearch, hsame]

end Shortest
end Calibration
