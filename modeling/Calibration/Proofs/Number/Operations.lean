import Calibration.Proofs.Number.Order

/-! # Products, quotients and differences

Each is the exact result rounded and stored. A product has the size of the exact one, a quotient at most that of the
exact one, and a difference of ordered floats is not below zero.
-/
namespace Calibration.Binary64
open Float.Model (Format UnpackedFloat)
open Float.Model.UnpackedFloat

section Forms
variable (x y : Float)

theorem form_mul : form (x * y) = stored (UnpackedFloat.mul .binary64 (form x) (form y)) := rfl

theorem form_div : form (x / y) = stored (UnpackedFloat.div .binary64 (form x) (form y)) := rfl

theorem form_sub : form (x - y) = stored (UnpackedFloat.sub .binary64 (form x) (form y)) := rfl

end Forms

section Product
variable {s₁ s₂ : Sign} {m₁ m₂ : Nat} {e₁ e₂ : Int}

theorem rounds_mul (h₁ : 0 < m₁) (h₂ : 0 < m₂)
    (hc : Scaled.Canonical ⟨m₁, e₁⟩) (hd : Scaled.Canonical ⟨m₂, e₂⟩) :
    Rounds (s₁ * s₂) (m₁ * 2 ^ e₁ * (m₂ * 2 ^ e₂))
      (UnpackedFloat.mul .binary64 (.finite s₁ m₁ e₁ h₁) (.finite s₂ m₂ e₂ h₂)) := by
  have hplace : e₁ + e₂ ≤ -1074 ∨ 2 ^ 52 ≤ m₁ * m₂ := by
    rcases hc.full with hleast | hfull
    · rcases hd.full with hleast' | hfull'
      · left
        dsimp only at *
        omega
      · exact .inr (hfull'.trans (Nat.le_mul_of_pos_left m₂ h₁))
    · exact .inr (hfull.trans (Nat.le_mul_of_pos_right m₁ h₂))
  have hproduct : (m₁ * 2 ^ e₁ * (m₂ * 2 ^ e₂) : ℚ) = (m₁ * m₂ : Nat) * 2 ^ (e₁ + e₂) := by
    rw [zpow_add₀ two_ne_zero]
    push_cast
    ring
  rw [hproduct]
  exact rounds_roundWithAccuracy (s₁ * s₂) .exact hplace

theorem stored_mul {x y : Float} {h₁ : 0 < m₁} {h₂ : 0 < m₂} (hx : form x = .finite s₁ m₁ e₁ h₁)
    (hy : form y = .finite s₂ m₂ e₂ h₂) :
    Stored (s₁ * s₂) (m₁ * 2 ^ e₁ * (m₂ * 2 ^ e₂)) (form (x * y)) := by
  rw [form_mul, hx, hy]
  exact (rounds_mul h₁ h₂ (canonical_form hx) (canonical_form hy)).stored

end Product

section Quotient
variable {m₁ m₂ : Nat} (e₁ e₂ : Int) (h₁ : 0 < m₁) (h₂ : 0 < m₂)
include h₁ h₂

/-- The quotient of the significands is cut off, but not before it has 53 bits or reaches the least exponent. -/
theorem divCore_spec :
    ∃ m e a, divCore .binary64 m₁ e₁ m₂ e₂ = (m, e, a) ∧ (e ≤ -1074 ∨ 2 ^ 52 ≤ m) ∧
      (m * 2 ^ e * (m₂ * 2 ^ e₂) : ℚ) ≤ m₁ * 2 ^ e₁ := by
  let e := min (e₁ - e₂) (max ((m₁.log2 + 1 + e₁) - (m₂.log2 + 1 + e₂) - 53 : Int) (-1074))
  let m := m₁ * 2 ^ (e₁ - e₂ - e).toNat / m₂
  have hcore : divCore .binary64 m₁ e₁ m₂ e₂ =
      (m, e, accuracyOfFraction (m₁ * 2 ^ (e₁ - e₂ - e).toNat % m₂) m₂) := by
    simp only [m, ← Nat.shiftLeft_eq]
    rfl
  refine ⟨m, e, _, hcore, ?_, ?_⟩
  · by_cases hleast : e ≤ -1074
    · exact .inl hleast
    · right
      rw [Nat.le_div_iff_mul_le h₂]
      calc 2 ^ 52 * m₂ ≤ 2 ^ 52 * 2 ^ (m₂.log2 + 1) := Nat.mul_le_mul_left _ Nat.lt_log2_self.le
        _ = 2 ^ (52 + (m₂.log2 + 1)) := (Nat.pow_add ..).symm
        _ ≤ 2 ^ (m₁.log2 + (e₁ - e₂ - e).toNat) := Nat.pow_le_pow_right (by decide) (by omega)
        _ = 2 ^ m₁.log2 * 2 ^ (e₁ - e₂ - e).toNat := Nat.pow_add ..
        _ ≤ m₁ * 2 ^ (e₁ - e₂ - e).toNat := Nat.mul_le_mul_right _ (Nat.log2_self_le h₁.ne')
  · have hcut : (m * m₂ : ℚ) ≤ m₁ * 2 ^ (e₁ - e₂ - e).toNat := by
      exact_mod_cast Nat.div_mul_le_self (m₁ * 2 ^ (e₁ - e₂ - e).toNat) m₂
    calc (m * 2 ^ e * (m₂ * 2 ^ e₂) : ℚ) = m * m₂ * 2 ^ (e + e₂) := by
          rw [zpow_add₀ two_ne_zero]
          ring
      _ ≤ m₁ * 2 ^ (e₁ - e₂ - e).toNat * 2 ^ (e + e₂) := by gcongr
      _ = m₁ * 2 ^ e₁ := by
          rw [← zpow_natCast, mul_assoc, ← zpow_add₀ two_ne_zero]
          congr 2
          omega

theorem rounds_div (s₁ s₂ : Sign) :
    ∃ q, q * (m₂ * 2 ^ e₂) ≤ (m₁ * 2 ^ e₁ : ℚ) ∧ Rounds (s₁ / s₂) q
      (UnpackedFloat.div .binary64 (.finite s₁ m₁ e₁ h₁) (.finite s₂ m₂ e₂ h₂)) := by
  obtain ⟨m, e, a, hcore, hplace, hle⟩ := divCore_spec e₁ e₂ h₁ h₂
  refine ⟨m * 2 ^ e, hle, ?_⟩
  rw [UnpackedFloat.div, hcore]
  exact rounds_roundWithAccuracy (s₁ / s₂) a hplace

omit h₁ h₂ in
/-- A quotient of numbers known from powers of two. -/
theorem size_div_le {u v : UnpackedFloat} (hu : Regular u) (hv : Regular v) {e k : Int} (hk : -1074 ≤ k)
    (hk' : k < 1023) (hle : size u ≤ 2 ^ (e + k)) (hge : 2 ^ e ≤ size v) :
    Regular (stored (UnpackedFloat.div .binary64 u v)) ∧
      size (stored (UnpackedFloat.div .binary64 u v)) ≤ 2 ^ (k + 1) := by
  have hpos : 0 < size v := lt_of_lt_of_le (by positivity) hge
  cases hv with
  | zero t => exact absurd hpos (lt_irrefl 0)
  | @finite t n f hn hd =>
    cases hu with
    | zero s =>
      rw [UnpackedFloat.div, stored_zero]
      exact ⟨.zero _, by dsimp only [size]; positivity⟩
    | @finite s m e' hm hc =>
      obtain ⟨q, hq, hrounds⟩ := rounds_div e' f hm hn s t
      have hqk : q ≤ 2 ^ k := by
        refine le_of_not_gt fun hgt => ?_
        have hqpos : 0 < q := lt_trans (by positivity) hgt
        have hbelow : q * 2 ^ e ≤ 2 ^ k * 2 ^ e := by
          calc q * 2 ^ e ≤ q * (n * 2 ^ f) := mul_le_mul_of_nonneg_left hge hqpos.le
            _ ≤ m * 2 ^ e' := hq
            _ ≤ 2 ^ (e + k) := hle
            _ = 2 ^ k * 2 ^ e := by rw [add_comm, zpow_add₀ two_ne_zero]
        exact hgt.not_ge (le_of_mul_le_mul_right hbelow (by positivity))
      have hlt : q < 2 ^ (k + 1) := hqk.trans_lt (zpow_lt_zpow_right₀ one_lt_two (Int.lt_succ k))
      have hsmall : q < 2 ^ (1023 : Int) := hqk.trans_lt (zpow_lt_zpow_right₀ one_lt_two hk')
      have hkept := hrounds.stored.rounds_of_lt hsmall
      exact ⟨hkept.regular, hkept.size_le (k + 1) (by omega) hlt⟩

end Quotient

section Difference

theorem rounds_normalize {d : Int} (e : Int) (z : Sign) (hd : 0 < d) :
    Rounds .positive (d * 2 ^ e) (UnpackedFloat.normalize .binary64 d e z) := by
  have hround := rounds_round .positive e (by omega : 0 < d.toNat)
  have hcast : ((d.toNat : Nat) : ℚ) = d := by
    rw [← Int.cast_natCast, Int.toNat_of_nonneg hd.le]
  unfold UnpackedFloat.normalize
  rw [compare_gt_iff_gt.2 hd, ← hcast]
  exact hround

/-- Two numbers brought to one exponent are subtracted as integers. -/
theorem apply_decreaseExponent (s : Sign) (m : Nat) {e t : Int} (h : t ≤ e) :
    (s.apply (decreaseExponent m e t).1 : ℚ) * 2 ^ t = s.apply m * 2 ^ e := by
  have hexponent : (decreaseExponent m e t).2 = t := by
    unfold decreaseExponent
    dsimp only
    omega
  have hvalue := decreaseExponent_value m e t
  rw [hexponent] at hvalue
  cases s with
  | positive => exact hvalue
  | negative =>
    dsimp only [Sign.apply]
    push_cast
    rw [neg_mul, neg_mul, hvalue]

theorem rounds_sub {u v : UnpackedFloat} (hu : Regular u) (hv : Regular v) (hlt : value u < value v) :
    Rounds .positive (value v - value u) (UnpackedFloat.sub .binary64 v u) := by
  cases hu with
  | zero s =>
    cases hv with
    | zero t => exact absurd hlt (lt_irrefl 0)
    | @finite t n f hn hd =>
      obtain rfl := sign_of_value_pos hlt
      rw [show value (.zero s) = 0 from rfl, sub_zero]
      exact rounds_self hn hd
  | @finite s m e hm hc =>
    cases hv with
    | zero t =>
      obtain rfl := sign_of_value_neg hlt
      have hdifference : value (.zero t) - value (.finite .negative m e hm) = m * 2 ^ e := by
        dsimp only [value, Sign.apply]
        push_cast
        ring
      rw [hdifference]
      exact @rounds_self .positive _ _ hm hc
    | @finite t n f hn hd =>
      have hdifference : ((t.apply (decreaseExponent n f (min f e)).1 -
          s.apply (decreaseExponent m e (min f e)).1 : Int) : ℚ) * 2 ^ min f e =
          value (.finite t n f hn) - value (.finite s m e hm) := by
        push_cast
        rw [sub_mul, apply_decreaseExponent t n (min_le_left f e), apply_decreaseExponent s m (min_le_right f e)]
        rfl
      have hscale : (0 : ℚ) < 2 ^ min f e := by positivity
      have hgap : (0 : ℚ) < ((t.apply (decreaseExponent n f (min f e)).1 -
          s.apply (decreaseExponent m e (min f e)).1 : Int) : ℚ) :=
        pos_of_mul_pos_left (hdifference ▸ sub_pos.2 hlt) hscale.le
      rw [← hdifference]
      exact rounds_normalize (min f e) .positive (by exact_mod_cast hgap)

/-- A difference above zero is rounded from the exact one. -/
theorem stored_sub {x y : Float} (hx : x.isFinite = true) (hy : y.isFinite = true)
    (hlt : value (form x) < value (form y)) :
    Stored .positive (value (form y) - value (form x)) (form (y - x)) := by
  rw [form_sub]
  exact (rounds_sub (regular_form hx) (regular_form hy) hlt).stored

end Difference

def NotNegative : UnpackedFloat → Prop
  | .finite s _ _ _ | .infinity s => s = .positive
  | .zero _ | .notANumber => True

section NotNegative
variable {u v : UnpackedFloat}

theorem Signed.notNegative (h : Signed .positive u) : NotNegative u := by
  cases u with
  | notANumber => trivial
  | zero s => trivial
  | infinity s => exact h
  | finite s m e hm => exact h

theorem signed_roundWithAccuracy (s : Sign) (m : Nat) (e : Int) (a : Accuracy) :
    Signed s (roundWithAccuracy .binary64 s m e a) := signed_formScaled ..

theorem NotNegative.mul (hu : NotNegative u) (hv : Signed .positive v) :
    NotNegative (UnpackedFloat.mul .binary64 u v) := by
  cases u with
  | notANumber => trivial
  | infinity s =>
    obtain rfl : s = .positive := hu
    cases v with
    | notANumber => cases hv
    | infinity t =>
      obtain rfl : t = .positive := hv
      rfl
    | zero t => trivial
    | finite t n f hn =>
      obtain rfl : t = .positive := hv
      rfl
  | zero s =>
    cases v with
    | notANumber => cases hv
    | infinity t => trivial
    | zero t => trivial
    | finite t n f hn => trivial
  | finite s m e hm =>
    obtain rfl : s = .positive := hu
    cases v with
    | notANumber => cases hv
    | infinity t =>
      obtain rfl : t = .positive := hv
      rfl
    | zero t => trivial
    | finite t n f hn =>
      obtain rfl : t = .positive := hv
      exact (signed_roundWithAccuracy .positive _ _ _).notNegative

theorem NotNegative.div (hu : NotNegative u) (hv : Signed .positive v) :
    NotNegative (UnpackedFloat.div .binary64 u v) := by
  cases u with
  | notANumber => trivial
  | infinity s =>
    obtain rfl : s = .positive := hu
    cases v with
    | notANumber => cases hv
    | infinity t => trivial
    | zero t =>
      obtain rfl : t = .positive := hv
      rfl
    | finite t n f hn =>
      obtain rfl : t = .positive := hv
      rfl
  | zero s =>
    cases v with
    | notANumber => cases hv
    | infinity t => trivial
    | zero t => trivial
    | finite t n f hn => trivial
  | finite s m e hm =>
    obtain rfl : s = .positive := hu
    cases v with
    | notANumber => cases hv
    | infinity t => trivial
    | zero t =>
      obtain rfl : t = .positive := hv
      rfl
    | finite t n f hn =>
      obtain rfl : t = .positive := hv
      exact (signed_roundWithAccuracy .positive _ _ _).notNegative

theorem notNegative_formOf (bits : Nat) : NotNegative (formOf .positive bits) := by
  unfold formOf
  split
  · trivial
  · split
    · rfl
    · split
      · rfl
      · trivial

/-- The sign is stored as it is. -/
theorem NotNegative.stored (hu : NotNegative u) : NotNegative (stored u) := by
  have hcomponents (e : BitVec Format.binary64.exponentBits)
      (m : BitVec Format.binary64.mantissaBitsWithoutImplicit) :
      NotNegative (unpack .binary64 (packComponents .binary64 .positive e m)) := by
    rw [unpack_packComponents]
    exact notNegative_formOf _
  cases u with
  | notANumber =>
    rw [stored_notANumber]
    trivial
  | infinity s =>
    rw [stored_infinity]
    exact hu
  | zero s =>
    rw [stored_zero]
    trivial
  | finite s m e hm =>
    obtain rfl : s = .positive := hu
    unfold Binary64.stored UnpackedFloat.pack
    dsimp only
    split
    · exact hcomponents _ _
    · split <;> exact hcomponents _ _

end NotNegative

section Words
variable {x : Float}

theorem roundToInt64_of_zero {s : Sign} (h : form x = .zero s) : roundToInt64 x = 0 := by
  cases s with
  | positive =>
    have hx : x = 0 := form_inj.1 (h.trans rfl)
    rw [hx]
    decide +kernel
  | negative =>
    have hx : x = -0 := form_inj.1 (h.trans rfl)
    rw [hx]
    decide +kernel

theorem roundToInt64_of_nan (h : form x = .notANumber) : roundToInt64 x = 0 := by
  have hx : x = 0 / 0 := form_inj.1 (h.trans rfl)
  rw [hx]
  decide +kernel

theorem roundToInt64_of_infinity (h : form x = .infinity .negative) : roundToInt64 x = Int64.minValue := by
  have hx : x = -1 / 0 := form_inj.1 (h.trans rfl)
  rw [hx]
  decide +kernel

theorem roundToInt64_of_infinity_positive (h : form x = .infinity .positive) :
    roundToInt64 x = Int64.maxValue := by
  have hx : x = 1 / 0 := form_inj.1 (h.trans rfl)
  rw [hx]
  decide +kernel

theorem roundToInt64_nonneg (h : NotNegative (form x)) : 0 ≤ (roundToInt64 x).toInt := by
  cases hx : form x with
  | notANumber =>
    rw [roundToInt64_of_nan hx]
    decide
  | zero s =>
    rw [roundToInt64_of_zero hx]
    decide
  | infinity s =>
    rw [hx] at h
    obtain rfl : s = .positive := h
    rw [roundToInt64_of_infinity_positive hx]
    decide
  | finite s m e hm =>
    rw [hx] at h
    obtain rfl : s = .positive := h
    rw [toInt_roundToInt64 hx]
    exact le_max_of_le_right (le_min (Int.natCast_nonneg _) (by decide))

/-- A float of moderate size is rounded to a word of moderate size. -/
theorem le_roundToInt64 (hx : Regular (form x)) (h : size (form x) ≤ 2 ^ 62) :
    -2 ^ 62 ≤ (roundToInt64 x).toInt := by
  generalize hform : form x = u at *
  cases hx with
  | zero s =>
    rw [roundToInt64_of_zero hform]
    decide
  | @finite s m e hm hc =>
    have hrounded : Scaled.rounded ⟨m, e⟩ ≤ 2 ^ 62 := Scaled.rounded_le h
    have happly : -2 ^ 62 ≤ s.apply (Scaled.rounded ⟨m, e⟩) := by
      cases s <;> dsimp only [Sign.apply] <;> omega
    rw [toInt_roundToInt64 hform]
    exact le_max_of_le_right (le_min happly (by decide))

end Words
end Calibration.Binary64
