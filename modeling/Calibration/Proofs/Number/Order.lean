import Calibration.Proofs.Number.Rounding

/-! # Finite floats as numbers

A finite float stands for a number, and finite floats are compared as their numbers are. Since an exponent is no
greater than it has to be, the exponents decide first.
-/
namespace Calibration.Binary64
open Float.Model (Format UnpackedFloat)
open Float.Model.UnpackedFloat

section Regular
variable {x : Float} {s : Sign} {m : Nat} {e : Int} {hm : 0 < m}

theorem exponent_form_le (h : form x = .finite s m e hm) : e ≤ 971 := by
  obtain ⟨-, hlt, hbits⟩ := ofBits_magnitudeBits h
  have hexponent : e = (Scaled.ofBits (magnitudeBits x)).exponent := by rw [hbits]
  unfold Scaled.ofBits at hexponent
  unfold infinityBits at hlt
  split at hexponent
  · dsimp only at hexponent
    omega
  · unfold hiddenBit at hexponent
    dsimp only at hexponent
    omega

theorem regular_form (h : x.isFinite = true) : Regular (form x) := by
  have hfinite : (form x).isFinite = true := h
  cases hx : form x with
  | notANumber =>
    rw [hx] at hfinite
    cases hfinite
  | infinity s =>
    rw [hx] at hfinite
    cases hfinite
  | zero s => exact .zero s
  | finite s m e hm => exact .finite (canonical_form hx)

theorem form_neg (x : Float) : form (-x) = (form x).neg := by
  have hstored : form (-x) = stored (form x).neg := rfl
  rw [hstored]
  cases hx : form x with
  | notANumber => exact stored_notANumber
  | infinity s => exact stored_infinity (-s)
  | zero s => exact stored_zero (-s)
  | finite s m e hm => exact (stored_finite hm (canonical_form hx)).trans (if_pos (exponent_form_le hx))

end Regular

def value : UnpackedFloat → ℚ
  | .finite s m e _ => s.apply m * 2 ^ e
  | _ => 0

section Sign
variable {s : Sign} {m : Nat} {e : Int} {hm : 0 < m}

theorem value_finite_positive_pos : 0 < value (.finite .positive m e hm) := by
  dsimp only [value, Sign.apply]
  positivity

theorem value_finite_negative_neg : value (.finite .negative m e hm) < 0 := by
  have hpos : (0 : ℚ) < m * 2 ^ e := by positivity
  dsimp only [value, Sign.apply]
  push_cast
  linarith

theorem sign_of_value_pos (h : 0 < value (.finite s m e hm)) : s = .positive := by
  cases s with
  | positive => rfl
  | negative => exact absurd h value_finite_negative_neg.not_gt

theorem sign_of_value_neg (h : value (.finite s m e hm) < 0) : s = .negative := by
  cases s with
  | positive => exact absurd h value_finite_positive_pos.not_gt
  | negative => rfl

end Sign

section Order
variable {c d : Scaled}

/-- Canonical numbers are ordered by their exponents first. -/
theorem Scaled.Canonical.value_lt (hc : c.Canonical) (hd : d.Canonical)
    (h : c.exponent < d.exponent ∨ c.exponent = d.exponent ∧ c.significand < d.significand) :
    c.value < d.value := by
  obtain ⟨m, e⟩ := c
  obtain ⟨n, f⟩ := d
  dsimp only [Scaled.value] at *
  rcases h with hlt | ⟨rfl, hlt⟩
  · have hm : (m : ℚ) < 2 ^ (53 : Int) := by exact_mod_cast hc.lt
    have hn : (2 : ℚ) ^ (52 : Int) ≤ n := by
      have hleast := hc.least
      have hfull := hd.full.resolve_left (by dsimp only at *; omega)
      exact_mod_cast hfull
    calc (m : ℚ) * 2 ^ e < 2 ^ (53 : Int) * 2 ^ e := by gcongr
      _ = 2 ^ (52 : Int) * 2 ^ (e + 1) := by
        rw [← zpow_add₀ two_ne_zero, ← zpow_add₀ two_ne_zero]
        congr 1
        omega
      _ ≤ 2 ^ (52 : Int) * 2 ^ f := by
        gcongr
        · exact one_le_two
        · omega
      _ ≤ n * 2 ^ f := by gcongr
  · gcongr

theorem Scaled.Canonical.compare_value (hc : c.Canonical) (hd : d.Canonical) :
    (compare c.exponent d.exponent).then (compare c.significand d.significand) =
      compare c.value d.value := by
  rcases lt_trichotomy c.exponent d.exponent with he | he | he
  · rw [compare_lt_iff_lt.2 he, compare_lt_iff_lt.2 (hc.value_lt hd (.inl he))]
    rfl
  · rw [compare_eq_iff_eq.2 he]
    rcases lt_trichotomy c.significand d.significand with hm | hm | hm
    · rw [compare_lt_iff_lt.2 hm, compare_lt_iff_lt.2 (hc.value_lt hd (.inr ⟨he, hm⟩))]
      rfl
    · rw [compare_eq_iff_eq.2 hm, compare_eq_iff_eq.2]
      · rfl
      · rw [Scaled.value, Scaled.value, he, hm]
    · rw [compare_gt_iff_gt.2 hm, compare_gt_iff_gt.2 (hd.value_lt hc (.inr ⟨he.symm, hm⟩))]
      rfl
  · rw [compare_gt_iff_gt.2 he, compare_gt_iff_gt.2 (hd.value_lt hc (.inl he))]
    rfl

theorem compare_neg_neg (a b : ℚ) : compare (-a) (-b) = (compare a b).swap := by
  rcases lt_trichotomy a b with h | h | h
  · rw [compare_lt_iff_lt.2 h, compare_gt_iff_gt.2 (neg_lt_neg h)]
    rfl
  · rw [compare_eq_iff_eq.2 h, compare_eq_iff_eq.2 (congrArg Neg.neg h)]
    rfl
  · rw [compare_gt_iff_gt.2 h, compare_lt_iff_lt.2 (neg_lt_neg h)]
    rfl

/-- Finite floats are compared as the numbers for which they stand. -/
theorem compare_of_regular {u v : UnpackedFloat} (hu : Regular u) (hv : Regular v) :
    u.compare v = some (compare (value u) (value v)) := by
  cases hu with
  | zero s =>
    cases hv with
    | zero t => exact congrArg some (compare_eq_iff_eq.2 rfl).symm
    | @finite t n f hn hd =>
      cases t with
      | positive => exact congrArg some (compare_lt_iff_lt.2 value_finite_positive_pos).symm
      | negative => exact congrArg some (compare_gt_iff_gt.2 value_finite_negative_neg).symm
  | @finite s m e hm hc =>
    cases hv with
    | zero t =>
      cases s with
      | positive => exact congrArg some (compare_gt_iff_gt.2 value_finite_positive_pos).symm
      | negative => exact congrArg some (compare_lt_iff_lt.2 value_finite_negative_neg).symm
    | @finite t n f hn hd =>
      have hcompare := hc.compare_value hd
      cases s with
      | positive =>
        cases t with
        | positive => exact congrArg some hcompare
        | negative =>
          have hgt : value (.finite .negative n f hn) < value (.finite .positive m e hm) :=
            value_finite_negative_neg.trans value_finite_positive_pos
          exact congrArg some (compare_gt_iff_gt.2 hgt).symm
      | negative =>
        cases t with
        | positive =>
          have hlt : value (.finite .negative m e hm) < value (.finite .positive n f hn) :=
            value_finite_negative_neg.trans value_finite_positive_pos
          exact congrArg some (compare_lt_iff_lt.2 hlt).symm
        | negative =>
          have hswap : compare (value (.finite .negative m e hm)) (value (.finite .negative n f hn)) =
              (compare ((m : ℚ) * 2 ^ e) (n * 2 ^ f)).swap := by
            rw [← compare_neg_neg, value, value]
            dsimp only [Sign.apply]
            push_cast
            rw [neg_mul, neg_mul]
          rw [hswap]
          exact congrArg (fun o => some o.swap) hcompare

/-- Finite floats are in the order of the numbers for which they stand. -/
theorem lt_iff_value {x y : Float} (hx : x.isFinite = true) (hy : y.isFinite = true) :
    x < y ↔ value (form x) < value (form y) := by
  have hlt : x < y ↔ (form x).lt (form y) = true := decide_eq_true_iff
  rw [hlt, UnpackedFloat.lt, compare_of_regular (regular_form hx) (regular_form hy), beq_iff_eq,
    Option.some_inj, compare_lt_iff_lt]

theorem le_iff_value {x y : Float} (hx : x.isFinite = true) (hy : y.isFinite = true) :
    x ≤ y ↔ value (form x) ≤ value (form y) := by
  have hle : x ≤ y ↔ (form x).le (form y) = true := decide_eq_true_iff
  rw [hle, UnpackedFloat.le, compare_of_regular (regular_form hx) (regular_form hy), Option.any_some,
    ← compare_le_iff_le]
  exact Ordering.isLE_iff_ne_gt

/-- Ordered positive floats are at least the last place of the lower one apart. -/
theorem zpow_le_value_sub {m n : Nat} {e f : Int} {hm : 0 < m} {hn : 0 < n}
    (hc : Scaled.Canonical ⟨m, e⟩) (hd : Scaled.Canonical ⟨n, f⟩)
    (hlt : value (.finite .positive m e hm) < value (.finite .positive n f hn)) :
    (2 : ℚ) ^ e ≤ value (.finite .positive n f hn) - value (.finite .positive m e hm) := by
  have hef : e ≤ f := le_of_not_gt fun hgt => (hd.value_lt hc (.inl hgt)).not_gt hlt
  have hscale : (0 : ℚ) < 2 ^ e := by positivity
  have hupper : value (.finite .positive n f hn) = (n * 2 ^ (f - e).toNat : Nat) * 2 ^ e := by
    push_cast
    rw [mul_assoc, ← zpow_eq_pow_mul hef]
    rfl
  have hlower : value (.finite .positive m e hm) = (m : Nat) * 2 ^ e := rfl
  rw [hupper, hlower, mul_lt_mul_iff_left₀ hscale] at hlt
  have hgap : (1 : ℚ) ≤ (n * 2 ^ (f - e).toNat : Nat) - (m : Nat) := by
    have hsucc : ((m + 1 : Nat) : ℚ) ≤ (n * 2 ^ (f - e).toNat : Nat) := by exact_mod_cast hlt
    push_cast at hsucc ⊢
    linarith
  rw [hupper, hlower, ← sub_mul]
  exact le_mul_of_one_le_left hscale.le hgap

theorem exists_form_of_pos {x : Float} (hx : x.isFinite = true) (h : 0 < value (form x)) :
    ∃ m e hm, form x = .finite .positive m e hm := by
  have hregular := regular_form hx
  generalize form x = u at *
  cases hregular with
  | zero s => exact absurd h (lt_irrefl 0)
  | @finite s m e hm hc =>
    obtain rfl := sign_of_value_pos h
    exact ⟨m, e, hm, rfl⟩

end Order

end Calibration.Binary64
