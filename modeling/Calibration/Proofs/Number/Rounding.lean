import Calibration.Proofs.Number.Forms

/-! # Rounding and powers of two

What has been rounded lies on the same side of a power of two as what was to be rounded, unless it is that power.
That is all that is said here of rounding; no error is bounded, and how a half is settled does not matter.
-/
namespace Calibration.Binary64
open Float.Model (Format UnpackedFloat totalExponent)
open Float.Model.UnpackedFloat

/-- A power of two as a multiple of a smaller one. -/
theorem zpow_eq_pow_mul {e k : Int} (h : e ≤ k) : (2 : ℚ) ^ k = 2 ^ (k - e).toNat * 2 ^ e := by
  rw [← zpow_natCast, ← zpow_add₀ two_ne_zero]
  congr 1
  omega

/-- A power of two and a scaled number, compared at the exponent of the latter. -/
theorem zpow_le_mul_zpow_iff {m : Nat} {e k : Int} (h : e ≤ k) :
    (2 : ℚ) ^ k ≤ m * 2 ^ e ↔ 2 ^ (k - e).toNat ≤ m := by
  have hpos : (0 : ℚ) < 2 ^ e := by positivity
  rw [zpow_eq_pow_mul h, mul_le_mul_iff_left₀ hpos]
  exact_mod_cast Iff.rfl

theorem mul_zpow_le_iff {m : Nat} {e k : Int} (h : e ≤ k) :
    (m : ℚ) * 2 ^ e ≤ 2 ^ k ↔ m ≤ 2 ^ (k - e).toNat := by
  have hpos : (0 : ℚ) < 2 ^ e := by positivity
  rw [zpow_eq_pow_mul h, mul_le_mul_iff_left₀ hpos]
  exact_mod_cast Iff.rfl

def size : UnpackedFloat → ℚ
  | .finite _ m e _ => m * 2 ^ e
  | _ => 0

inductive Regular : UnpackedFloat → Prop
  | zero (s : Sign) : Regular (.zero s)
  | finite {s : Sign} {m : Nat} {e : Int} {hm : 0 < m} (h : Scaled.Canonical ⟨m, e⟩) :
    Regular (.finite s m e hm)

theorem Regular.isFinite {u : UnpackedFloat} (h : Regular u) : u.isFinite = true := by
  cases h with
  | zero s => rfl
  | finite h => rfl

def Signed (s : Sign) : UnpackedFloat → Prop
  | .finite t _ _ _ | .zero t | .infinity t => t = s
  | .notANumber => False

/-- The form `u` of sign `s` is what a number of size `x` may be rounded to. -/
structure Rounds (s : Sign) (x : ℚ) (u : UnpackedFloat) : Prop where
  regular : Regular u
  signed : Signed s u
  size_le : ∀ k : Int, -1074 ≤ k → x < 2 ^ k → size u ≤ 2 ^ k
  le_size : ∀ k : Int, -1074 ≤ k → 2 ^ k ≤ x → 2 ^ k ≤ size u

theorem mantissa_shiftRight (em : ExtendedMantissa) (n : Nat) :
    (em >>> n).mantissa = em.mantissa / 2 ^ n := by
  change (n.repeat ExtendedMantissa.shiftRightOne em).mantissa = _
  induction n with
  | zero => simp [Nat.repeat]
  | succ n ih =>
    rw [Nat.repeat, ExtendedMantissa.shiftRightOne, ih, Nat.div_div_eq_div_mul, Nat.pow_succ]

theorem mantissa_ofMantissaAndAccuracy (m : Nat) (a : Accuracy) :
    (ExtendedMantissa.ofMantissaAndAccuracy m a).mantissa = m := by
  cases a with
  | exact => rfl
  | inexact o => cases o <;> rfl

theorem roundToNearestEven_bounds (m : Nat) (a : Accuracy) :
    m ≤ a.roundToNearestEven m ∧ a.roundToNearestEven m ≤ m + 1 := by
  cases a with
  | exact => exact ⟨Nat.le_refl _, Nat.le_succ _⟩
  | inexact o => cases o <;> dsimp only [Accuracy.roundToNearestEven] <;> omega

theorem targetExponent_eq (m : Nat) (e : Int) :
    Format.binary64.targetExponent (totalExponent m e) = max (m.log2 + e - 52) (-1074) := by
  change max ((m.log2 : Int) + 1 + e - 53) (-1074) = _
  omega

def place (m : Nat) (e : Int) : Int := max (m.log2 + e - 52) (-1074)

theorem place_eq_add {m : Nat} {e : Int} (h : e ≤ -1074 ∨ 2 ^ 52 ≤ m) :
    place m e = e + (place m e - e).toNat := by
  have hlog : 2 ^ 52 ≤ m → 52 ≤ m.log2 := fun hm => (Nat.le_log2 (by omega)).2 hm
  unfold place
  omega

/-- What stands above the place at which a number is rounded fits 53 bits, and has all of them unless the place
is the least. -/
theorem quotient_bounds {m : Nat} {e : Int} (h : e ≤ -1074 ∨ 2 ^ 52 ≤ m) :
    m / 2 ^ (place m e - e).toNat < 2 ^ 53 ∧
      (place m e = -1074 ∨ 2 ^ 52 ≤ m / 2 ^ (place m e - e).toNat) := by
  have hplace := place_eq_add h
  generalize hn : (place m e - e).toNat = n at hplace
  unfold place at hplace
  constructor
  · apply Nat.div_lt_of_lt_mul
    calc m < 2 ^ (m.log2 + 1) := Nat.lt_log2_self
      _ ≤ 2 ^ (n + 53) := Nat.pow_le_pow_right (by decide) (by omega)
      _ = 2 ^ n * 2 ^ 53 := Nat.pow_add ..
  · by_cases hleast : place m e = -1074
    · exact .inl hleast
    · right
      unfold place at hleast
      have hm : m ≠ 0 := by
        rintro rfl
        rw [Nat.log2_zero] at hleast
        omega
      rw [Nat.le_div_iff_mul_le (Nat.two_pow_pos n), ← Nat.pow_add]
      calc 2 ^ (52 + n) = 2 ^ m.log2 := by
            congr 1
            omega
        _ ≤ m := Nat.log2_self_le hm

def formScaled (s : Sign) (m : Nat) (e : Int) : UnpackedFloat :=
  if h : m = 0 then .zero s else .finite s m e (Nat.pos_of_ne_zero h)

section FormScaled
variable (s : Sign) (m : Nat) (e : Int)

theorem signed_formScaled : Signed s (formScaled s m e) := by
  unfold formScaled
  split <;> rfl

theorem size_formScaled : size (formScaled s m e) = m * 2 ^ e := by
  unfold formScaled
  split
  · next h => simp [h, size]
  · rfl

variable {m e}

theorem regular_formScaled (hlt : m < 2 ^ 53) (hleast : -1074 ≤ e) (hfull : e = -1074 ∨ 2 ^ 52 ≤ m) :
    Regular (formScaled s m e) := by
  unfold formScaled
  split
  · exact .zero s
  · next h => exact .finite ⟨Nat.pos_of_ne_zero h, hlt, hleast, hfull⟩

end FormScaled

/-- A shift leaves what stands above the place. -/
theorem shiftToTargetExponent_eq (m : Nat) {e : Int} (a : Accuracy) (h : e ≤ place m e) :
    (shiftToTargetExponent .binary64 m e a).1.mantissa = m / 2 ^ (place m e - e).toNat ∧
      (shiftToTargetExponent .binary64 m e a).2 = place m e := by
  unfold shiftToTargetExponent shiftToExponent
  dsimp only
  rw [mantissa_shiftRight, mantissa_ofMantissaAndAccuracy, targetExponent_eq]
  change _ ∧ e + (place m e - e).toNat = place m e
  exact ⟨rfl, by omega⟩

theorem place_of_lt {r : Nat} {t : Int} (hlt : r < 2 ^ 53) (hleast : -1074 ≤ t)
    (hfull : t = -1074 ∨ 2 ^ 52 ≤ r) : place r t = t := by
  have hlow : 2 ^ 52 ≤ r → 52 ≤ r.log2 := fun h => (Nat.le_log2 (by omega)).2 h
  have hhigh : r.log2 < 53 := by
    by_cases hzero : r = 0
    · rw [hzero]
      decide
    · exact (Nat.log2_lt hzero).2 hlt
  unfold place
  omega

theorem place_two_pow {t : Int} (hleast : -1074 ≤ t) : place (2 ^ 53) t = t + 1 := by
  unfold place
  rw [Nat.log2_two_pow]
  omega

/-- What is shifted once more after rounding has 54 bits, of which the last is zero, so no value is changed. -/
theorem shiftToTargetExponent_carry (s : Sign) {r : Nat} {t : Int} (hr : r ≤ 2 ^ 53)
    (hleast : -1074 ≤ t) (hfull : t = -1074 ∨ 2 ^ 52 ≤ r) :
    Regular (formScaled s (shiftToTargetExponent .binary64 r t .exact).1.mantissa
        (shiftToTargetExponent .binary64 r t .exact).2) ∧
      size (formScaled s (shiftToTargetExponent .binary64 r t .exact).1.mantissa
        (shiftToTargetExponent .binary64 r t .exact).2) = r * 2 ^ t := by
  rcases Nat.lt_or_ge r (2 ^ 53) with hlt | hge
  · have hkept := place_of_lt hlt hleast hfull
    obtain ⟨hmantissa, hexponent⟩ := shiftToTargetExponent_eq r .exact hkept.ge
    rw [hmantissa, hexponent, hkept, sub_self, Int.toNat_zero, Nat.pow_zero, Nat.div_one]
    exact ⟨regular_formScaled s hlt hleast hfull, size_formScaled ..⟩
  · obtain rfl : r = 2 ^ 53 := by omega
    have hcarried := place_two_pow hleast
    obtain ⟨hmantissa, hexponent⟩ :=
      shiftToTargetExponent_eq (2 ^ 53) .exact (by omega : t ≤ place (2 ^ 53) t)
    have hhalf : 2 ^ 53 / 2 ^ (t + 1 - t).toNat = 2 ^ 52 := by
      rw [show (t + 1 - t).toNat = 1 by omega]
      rfl
    rw [hmantissa, hexponent, hcarried, hhalf]
    refine ⟨regular_formScaled s (by decide) (by omega) (.inr (Nat.le_refl _)), ?_⟩
    rw [size_formScaled, zpow_add_one₀ two_ne_zero]
    push_cast
    ring

/-- Rounding keeps what stands above the place, or the next number there. -/
theorem roundWithAccuracy_eq (s : Sign) {m : Nat} {e : Int} (a : Accuracy)
    (h : e ≤ -1074 ∨ 2 ^ 52 ≤ m) :
    ∃ r, m / 2 ^ (place m e - e).toNat ≤ r ∧ r ≤ m / 2 ^ (place m e - e).toNat + 1 ∧
      Regular (roundWithAccuracy .binary64 s m e a) ∧
      size (roundWithAccuracy .binary64 s m e a) = r * 2 ^ place m e := by
  obtain ⟨hquotient, hfull⟩ := quotient_bounds h
  have hplace := place_eq_add h
  obtain ⟨hmantissa, hexponent⟩ := shiftToTargetExponent_eq m a (by omega : e ≤ place m e)
  have hleast : -1074 ≤ place m e := le_max_right _ _
  obtain ⟨r, hr⟩ : ∃ r, (shiftToTargetExponent .binary64 m e a).1.roundedMantissa = r := ⟨_, rfl⟩
  obtain ⟨hlow, hhigh⟩ :
      m / 2 ^ (place m e - e).toNat ≤ r ∧ r ≤ m / 2 ^ (place m e - e).toNat + 1 := by
    rw [← hr, ← hmantissa]
    exact roundToNearestEven_bounds _ _
  have hround : roundWithAccuracy .binary64 s m e a =
      formScaled s (shiftToTargetExponent .binary64 r (place m e) .exact).1.mantissa
        (shiftToTargetExponent .binary64 r (place m e) .exact).2 := by
    rw [← hr, ← hexponent]
    rfl
  rw [hround]
  exact ⟨r, hlow, hhigh, shiftToTargetExponent_carry s (by omega) hleast (by omega)⟩

theorem le_of_mul_zpow_lt {m : Nat} {e k : Int} (h : e ≤ -1074 ∨ 2 ^ 52 ≤ m) (hk : -1074 ≤ k)
    (hlt : (m : ℚ) * 2 ^ e < 2 ^ k) : e ≤ k := by
  rcases h with h | hm
  · omega
  · refine Classical.byContradiction fun hgt => not_le_of_gt hlt ?_
    have hone : (1 : ℚ) ≤ m := by exact_mod_cast (Nat.two_pow_pos 52).trans_le hm
    calc (2 : ℚ) ^ k ≤ 2 ^ e := zpow_le_zpow_right₀ one_le_two (by omega)
      _ ≤ m * 2 ^ e := le_mul_of_one_le_left (by positivity) hone

theorem place_le {m : Nat} {e k : Int} (h : e ≤ -1074 ∨ 2 ^ 52 ≤ m) (hk : -1074 ≤ k) (he : e ≤ k)
    (hlt : m < 2 ^ (k - e).toNat) : place m e ≤ k := by
  have hlog : m = 0 ∨ m.log2 < (k - e).toNat :=
    m.eq_zero_or_pos.imp_right fun hm => (Nat.log2_lt hm.ne').2 hlt
  unfold place
  rcases hlog with rfl | hlog
  · rw [Nat.log2_zero]
    omega
  · omega

theorem rounds_roundWithAccuracy (s : Sign) {m : Nat} {e : Int} (a : Accuracy)
    (h : e ≤ -1074 ∨ 2 ^ 52 ≤ m) :
    Rounds s (m * 2 ^ e) (roundWithAccuracy .binary64 s m e a) := by
  obtain ⟨r, hlow, hhigh, hregular, hsize⟩ := roundWithAccuracy_eq s a h
  obtain ⟨-, hfull⟩ := quotient_bounds h
  have hplace := place_eq_add h
  have hsplit (k : Int) (hk : place m e ≤ k) :
      2 ^ (k - e).toNat = 2 ^ (place m e - e).toNat * 2 ^ (k - place m e).toNat := by
    rw [← Nat.pow_add]
    congr 1
    omega
  refine ⟨hregular, signed_formScaled .., fun k hk hlt => ?_, fun k hk hle => ?_⟩
  · have he := le_of_mul_zpow_lt h hk hlt
    have hm : m < 2 ^ (k - e).toNat := Nat.lt_of_not_le (mt (zpow_le_mul_zpow_iff he).2 hlt.not_ge)
    have ht := place_le h hk he hm
    have hquotient : m / 2 ^ (place m e - e).toNat < 2 ^ (k - place m e).toNat :=
      Nat.div_lt_of_lt_mul (hsplit k ht ▸ hm)
    rw [hsize, mul_zpow_le_iff ht]
    omega
  · rw [hsize]
    rcases lt_or_ge k (place m e) with hlt | ht
    · -- Above the least place all 53 bits are there, so the number is at least its place.
      have hr : 1 ≤ r := by omega
      have hone : (1 : ℚ) ≤ r := by exact_mod_cast hr
      calc (2 : ℚ) ^ k ≤ 2 ^ place m e := zpow_le_zpow_right₀ one_le_two hlt.le
        _ ≤ r * 2 ^ place m e := le_mul_of_one_le_left (by positivity) hone
    · have hm := (zpow_le_mul_zpow_iff (by omega)).1 hle
      have hquotient : 2 ^ (k - place m e).toNat ≤ m / 2 ^ (place m e - e).toNat := by
        rw [Nat.le_div_iff_mul_le (Nat.two_pow_pos _), Nat.mul_comm, ← hsplit k ht]
        exact hm
      rw [zpow_le_mul_zpow_iff ht]
      exact hquotient.trans hlow

theorem decreaseExponent_value (m : Nat) (e t : Int) :
    ((decreaseExponent m e t).1 : ℚ) * 2 ^ (decreaseExponent m e t).2 = m * 2 ^ e := by
  unfold decreaseExponent
  dsimp only
  rw [Nat.shiftLeft_eq]
  push_cast
  rw [← zpow_natCast, mul_assoc, ← zpow_add₀ two_ne_zero]
  congr 2
  omega

theorem rounds_round (s : Sign) {m : Nat} (e : Int) (hm : 0 < m) :
    Rounds s (m * 2 ^ e) (UnpackedFloat.round .binary64 s m e) := by
  have hround : UnpackedFloat.round .binary64 s m e = roundWithAccuracy .binary64 s
      (decreaseExponent m e (place m e)).1 (decreaseExponent m e (place m e)).2 .exact := by
    unfold UnpackedFloat.round
    rw [targetExponent_eq]
    rfl
  rw [hround, ← decreaseExponent_value m e (place m e)]
  apply rounds_roundWithAccuracy
  unfold decreaseExponent
  dsimp only
  rw [Nat.shiftLeft_eq]
  by_cases hlong : 52 ≤ m.log2
  · right
    calc 2 ^ 52 ≤ m := (Nat.le_log2 hm.ne').1 hlong
      _ ≤ m * 2 ^ (e - place m e).toNat := Nat.le_mul_of_pos_right m (Nat.two_pow_pos _)
  · by_cases hleast : place m e = -1074
    · left
      omega
    · -- Above the least place a short number is made as long as a full one.
      right
      calc 2 ^ 52 = 2 ^ m.log2 * 2 ^ (e - place m e).toNat := by
            rw [← Nat.pow_add]
            unfold place at *
            congr 1
            omega
        _ ≤ m * 2 ^ (e - place m e).toNat := Nat.mul_le_mul_right _ (Nat.log2_self_le hm.ne')

theorem rounds_self {s : Sign} {m : Nat} {e : Int} (hm : 0 < m) (h : Scaled.Canonical ⟨m, e⟩) :
    Rounds s (m * 2 ^ e) (.finite s m e hm) :=
  ⟨.finite h, rfl, fun _ _ hlt => hlt.le, fun _ _ hle => hle⟩

/-- The form `u` is what a number of size `x` may be stored as. Only a large one is stored as infinite. -/
inductive Stored (s : Sign) (x : ℚ) : UnpackedFloat → Prop
  | infinite (h : 2 ^ (1023 : Int) ≤ x) : Stored s x (.infinity s)
  | finite {u : UnpackedFloat} (h : Rounds s x u) : Stored s x u

namespace Stored
variable {s : Sign} {x : ℚ} {u : UnpackedFloat}

theorem signed (h : Stored s x u) : Signed s u := by
  cases h with
  | infinite h => rfl
  | finite h => exact h.signed

theorem rounds (h : Stored s x u) (hu : u ≠ .infinity s) : Rounds s x u := by
  cases h with
  | infinite h => exact absurd rfl hu
  | finite h => exact h

theorem rounds_of_lt (h : Stored s x u) (hx : x < 2 ^ (1023 : Int)) : Rounds s x u := by
  cases h with
  | infinite h => exact absurd hx h.not_gt
  | finite h => exact h

end Stored

theorem Rounds.stored {s : Sign} {x : ℚ} {u : UnpackedFloat} (h : Rounds s x u) :
    Stored s x (stored u) := by
  have hsigned := h.signed
  have hregular := h.regular
  cases hregular with
  | zero t =>
    rw [stored_zero]
    exact .finite h
  | @finite t m e hm hcanonical =>
    obtain rfl : t = s := hsigned
    rw [stored_finite hm hcanonical]
    split
    · exact .finite h
    · next he =>
      refine .infinite (le_of_not_gt fun hlt => ?_)
      have hfull : 2 ^ 52 ≤ m := hcanonical.full.resolve_left (by dsimp only; omega)
      have hsize : (m : ℚ) * 2 ^ e ≤ 2 ^ (1023 : Int) := h.size_le 1023 (by decide) hlt
      have hge : (2 : ℚ) ^ (52 + e) ≤ m * 2 ^ e := by
        rw [zpow_add₀ two_ne_zero]
        gcongr
        exact_mod_cast hfull
      have hexponent : 52 + e ≤ 1023 := (zpow_le_zpow_iff_right₀ one_lt_two).1 (hge.trans hsize)
      omega

end Calibration.Binary64
