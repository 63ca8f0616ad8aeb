import Calibration.Proofs.Number.Operations
import Calibration.Proofs.Quant.Grid

/-! # Zero points and the exact sum

A zero point is the lowest point of the grid plus the offset of zero, brought onto the grid. The words in which they
are added hold the sum unless the product that leads to the offset is infinite, and then there is no map. Words that
wrap would give one, with zero at the wrong end.
-/
namespace Calibration
open Binary64
open Float.Model (UnpackedFloat)
open Float.Model.UnpackedFloat

namespace Grid

def nearest (g : Grid) (i : Int) : Int :=
  if i < g.low.toInt then g.low.toInt else if g.high.toInt < i then g.high.toInt else i

theorem toInt_of_clamp? {g : Grid} {i z : Int64} (h : g.clamp? i = some z) : z.toInt = g.nearest i.toInt := by
  unfold clamp? at h
  split at h
  · cases h
  · cases h
    unfold nearest
    simp only [Int64.lt_iff_toInt_lt]
    split
    · rfl
    · split <;> rfl

structure WithinByte (g : Grid) : Prop extends IsSigned g where
  low_ge : -128 ≤ g.low.toInt
  high_le : g.high.toInt ≤ 127
  steps : ∃ m e hm, form g.steps = .finite .positive m e hm
  size_steps : size (form g.steps) < 2 ^ (8 : Int)

theorem withinByte_forBits {bits : Nat} (hbits : bits = 8 ∨ bits = 4) (asymmetric : Bool) :
    (forBits bits asymmetric).WithinByte := by
  have h8 : int8.WithinByte := by
    have hform : form int8.steps = .finite .positive (255 * 2 ^ 45) (-45) (by decide) := rfl
    refine ⟨isSigned_forBits 8 true, by decide, by decide, ⟨_, _, _, hform⟩, ?_⟩
    rw [hform]
    norm_num [size]
  have h4 : int4.WithinByte := by
    have hform : form int4.steps = .finite .positive (15 * 2 ^ 49) (-49) (by decide) := rfl
    refine ⟨isSigned_forBits 4 true, by decide, by decide, ⟨_, _, _, hform⟩, ?_⟩
    rw [hform]
    norm_num [size]
  have hnarrow : int4Narrow.WithinByte := by
    have hform : form int4Narrow.steps = .finite .positive (14 * 2 ^ 49) (-49) (by decide) := rfl
    refine ⟨isSigned_forBits 4 false, by decide, by decide, ⟨_, _, _, hform⟩, ?_⟩
    rw [hform]
    norm_num [size]
  rcases hbits with rfl | rfl
  · exact h8
  · cases asymmetric with
    | true => exact h4
    | false => exact hnarrow

end Grid

namespace Affine

/-- The zero point with words that wrap. -/
def wrappedZeroPoint? (min max : Float) (g : Grid) : Option Int64 := g.clamp? (g.low + offset min max g)

structure SumFits (min max : Float) (g : Grid) : Prop where
  ge : Int64.minValue.toInt ≤ sum min max g
  le : sum min max g ≤ Int64.maxValue.toInt
  derived : ∃ p, derive? min max g = some p ∧ p.zeroPoint.toInt = g.nearest (sum min max g) ∧
    wrappedZeroPoint? min max g = some p.zeroPoint

/-- The sum is below all words. Zero belongs at the lowest point of the grid, but there is no map, and with words
that wrap it would be put at the other end. -/
structure SumOverflows (min max : Float) (g : Grid) : Prop where
  below : sum min max g < Int64.minValue.toInt
  nearest : g.nearest (sum min max g) = g.low.toInt
  underived : derive? min max g = none
  wrapped : wrappedZeroPoint? min max g = some g.high

/-- A range above zero, so far up that the product is infinite, though its width is finite. -/
structure Overflows (min max : Float) (g : Grid) : Prop where
  min_pos : 0 < min
  product : (-min * g.steps).isInf = true
  width : (max - min).isFinite = true

variable {min max : Float} {g : Grid}

theorem sumFits_of_offset_ge (hg : g.WithinByte) (h : Sums min max) (hoffset : -2 ^ 62 ≤ (offset min max g).toInt) :
    SumFits min max g := by
  have hlow := hg.low_ge
  have hneg : g.low.toInt < 0 := Int64.lt_iff_toInt_lt.1 hg.low_neg
  have hword := Int64.toInt_lt (offset min max g)
  have hge : -2 ^ 63 ≤ sum min max g := by
    unfold sum
    omega
  have hle : sum min max g < 2 ^ 63 := by
    unfold sum
    omega
  have hsum : (g.low + offset min max g).toInt = sum min max g := by
    rw [Int64.toInt_add]
    exact Int.bmod_eq_of_le (by omega) (by omega)
  obtain ⟨z, hz⟩ := Grid.exists_clamp? hg.low_le_high (g.low + offset min max g)
  have hderived : derive? min max g = some ⟨(max - min) / g.steps, z, g⟩ := by
    rw [derive?_of_sums hg.toIsSigned h, checkedWord?_eq_some_iff.2 hsum, Option.bind_some, hz, Option.map_some]
  exact ⟨hge, Int.le_of_lt_add_one hle, _, hderived, hsum ▸ Grid.toInt_of_clamp? hz, hz⟩

theorem sumOverflows_of_offset_eq (hg : g.WithinByte) (h : Sums min max)
    (hoffset : offset min max g = Int64.minValue) : SumOverflows min max g := by
  have hlow := hg.low_ge
  have hneg : g.low.toInt < 0 := Int64.lt_iff_toInt_lt.1 hg.low_neg
  have hhigh := hg.high_le
  have hmin : Int64.minValue.toInt = -2 ^ 63 := by decide
  have hexact : sum min max g = g.low.toInt - 2 ^ 63 := by
    rw [sum, hoffset, hmin]
    omega
  have hwrapped : (g.low + offset min max g).toInt = g.low.toInt + 2 ^ 63 := by
    calc (g.low + offset min max g).toInt = (g.low.toInt + -2 ^ 63).bmod (2 ^ 64) := by
          rw [Int64.toInt_add, hoffset, hmin]
      _ = (g.low.toInt + 2 ^ 63 + (2 ^ 64 : Nat) * -1).bmod (2 ^ 64) := by
          congr 1
          omega
      _ = (g.low.toInt + 2 ^ 63).bmod (2 ^ 64) := Int.add_mul_bmod_self_left ..
      _ = g.low.toInt + 2 ^ 63 := Int.bmod_eq_of_le (by omega) (by omega)
  have hbelow : sum min max g < Int64.minValue.toInt := by
    rw [hexact, hmin]
    omega
  obtain ⟨z, hz⟩ := Grid.exists_clamp? hg.low_le_high (g.low + offset min max g)
  have hend : z = g.high := by
    rw [← Int64.toInt_inj, Grid.toInt_of_clamp? hz, hwrapped]
    unfold Grid.nearest
    rw [if_neg (by omega), if_pos (by omega)]
  constructor
  · exact hbelow
  · unfold Grid.nearest
    rw [hexact, if_pos (by omega)]
  · exact (derive?_eq_none_iff hg.toIsSigned).2 ⟨h, hbelow⟩
  · exact hend ▸ hz

/-- With an infinite bound there is no finite width. -/
theorem sub_of_not_isFinite {u v : UnpackedFloat} (hle : v.le u = false) (hu : u.isNaN = false)
    (hv : v.isNaN = false) (hinf : u.isFinite = false ∨ v.isFinite = false) :
    UnpackedFloat.sub .binary64 v u = .infinity .positive := by
  cases u with
  | notANumber => cases hu
  | infinity s =>
    cases v with
    | notANumber => cases hv
    | infinity t => cases s <;> cases t <;> first | rfl | cases hle
    | zero t => cases s <;> first | rfl | cases hle
    | finite t n f hn => cases s <;> first | rfl | cases hle
  | zero s =>
    cases v with
    | notANumber => cases hv
    | infinity t => cases t <;> first | rfl | cases hle
    | _ => simp [UnpackedFloat.isFinite] at hinf
  | finite s m e hm =>
    cases v with
    | notANumber => cases hv
    | infinity t => cases t <;> first | rfl | cases hle
    | _ => simp [UnpackedFloat.isFinite] at hinf

/-- A range is finite, or its width is infinite. -/
theorem Sums.width (h : Sums min max) : form (max - min) = .infinity .positive ∨
    min.isFinite = true ∧ max.isFinite = true ∧ (max - min).isFinite = true := by
  have hrange := h.range
  unfold isDegenerate at hrange
  rw [Bool.or_eq_false_iff, Bool.or_eq_false_iff, decide_eq_false_iff_not] at hrange
  obtain ⟨⟨hle, hmax⟩, hmin⟩ := hrange
  by_cases hfinite : min.isFinite = true ∧ max.isFinite = true
  · cases hwidth : (max - min).isFinite with
    | true => exact .inr ⟨hfinite.1, hfinite.2, rfl⟩
    | false =>
      left
      rw [le_iff_value hfinite.2 hfinite.1] at hle
      refine Classical.byContradiction fun hne => ?_
      have hrounds := (stored_sub hfinite.1 hfinite.2 (lt_of_not_ge hle)).rounds hne
      exact Bool.false_ne_true (hwidth.symm.trans hrounds.regular.isFinite)
  · left
    have hform : max ≤ min ↔ (form max).le (form min) = true := decide_eq_true_iff
    rw [hform, Bool.not_eq_true] at hle
    rw [form_sub, sub_of_not_isFinite hle hmin hmax, stored_infinity]
    rw [Classical.not_and_iff_not_or_not, Bool.not_eq_true, Bool.not_eq_true] at hfinite
    exact hfinite

/-- An infinite width leaves nothing of the quotient. -/
theorem offset_of_wide (hwidth : form (max - min) = .infinity .positive) : offset min max g = 0 := by
  have hform := form_div (-min * g.steps) (max - min)
  rw [hwidth] at hform
  unfold offset
  cases hproduct : form (-min * g.steps) with
  | notANumber =>
    rw [hproduct] at hform
    exact roundToInt64_of_nan (hform.trans stored_notANumber)
  | infinity s =>
    rw [hproduct] at hform
    exact roundToInt64_of_nan (hform.trans stored_notANumber)
  | zero s =>
    rw [hproduct] at hform
    exact roundToInt64_of_zero (hform.trans (stored_zero _))
  | finite s m e hm =>
    rw [hproduct] at hform
    exact roundToInt64_of_zero (hform.trans (stored_zero _))

/-- A range for which a zero point is summed up is not empty. -/
theorem value_lt_of_sums (hmin : min.isFinite = true) (hmax : max.isFinite = true) (h : Sums min max) :
    value (form min) < value (form max) := by
  have hrange := h.range
  unfold isDegenerate at hrange
  rw [Bool.or_eq_false_iff, Bool.or_eq_false_iff, decide_eq_false_iff_not, le_iff_value hmax hmin] at hrange
  exact lt_of_not_ge hrange.1.1

/-- The product has the other sign than the lower bound, and less than 61 bits above its exponent. -/
theorem stored_product (hg : g.WithinByte) {s : Sign} {m : Nat} {e : Int} {hm : 0 < m}
    (hform : form min = .finite s m e hm) :
    ∃ x < (2 : ℚ) ^ (e + 61), Stored (-s) x (form (-min * g.steps)) := by
  obtain ⟨n, f, hn, hsteps⟩ := hg.steps
  have hneg : form (-min) = .finite (-s) m e hm := by rw [form_neg, hform, neg]
  have hstored := stored_mul hneg hsteps
  have hsign : -s * Sign.positive = -s := by cases s <;> rfl
  rw [hsign] at hstored
  refine ⟨_, ?_, hstored⟩
  have hm53 : (m : ℚ) < 2 ^ (53 : Int) := by exact_mod_cast (canonical_form hform).lt
  have hsteps8 : (n * 2 ^ f : ℚ) < 2 ^ (8 : Int) := by
    have hsize := hg.size_steps
    rw [hsteps] at hsize
    exact hsize
  calc (m * 2 ^ e * (n * 2 ^ f) : ℚ) < 2 ^ (53 : Int) * 2 ^ e * 2 ^ (8 : Int) := by gcongr
    _ = 2 ^ (e + 61) := by
        rw [← zpow_add₀ two_ne_zero, ← zpow_add₀ two_ne_zero]
        congr 1
        omega

section Bounds
variable (hmin : min.isFinite = true) (hmax : max.isFinite = true)
  (hlt : value (form min) < value (form max))

include hmin in
theorem notNegative_product (hg : g.WithinByte) (h0 : value (form min) ≤ 0) :
    NotNegative (form (-min * g.steps)) := by
  obtain ⟨n, f, hn, hsteps⟩ := hg.steps
  have hsigned : Signed .positive (form g.steps) := by
    rw [hsteps]
    rfl
  have hneg : NotNegative (form (-min)) := by
    have hregular := regular_form hmin
    rw [form_neg]
    generalize form min = u at *
    cases hregular with
    | zero s => trivial
    | @finite s m e hm hc =>
      cases s with
      | positive => exact absurd h0 value_finite_positive_pos.not_ge
      | negative => rfl
  exact (hneg.mul hsigned).stored

include hmin hmax hlt

theorem signed_width : Signed .positive (form (max - min)) := (stored_sub hmin hmax hlt).signed

theorem rounds_width (hwidth : (max - min).isFinite = true) :
    Rounds .positive (value (form max) - value (form min)) (form (max - min)) := by
  refine (stored_sub hmin hmax hlt).rounds fun heq => ?_
  have hfinite : (form (max - min)).isFinite = true := hwidth
  rw [heq] at hfinite
  cases hfinite

/-- From a range that begins at or below zero no offset is negative. -/
theorem offset_nonneg (hg : g.WithinByte) (h0 : value (form min) ≤ 0) : 0 ≤ (offset min max g).toInt := by
  have hquotient := (notNegative_product hmin hg h0).div (signed_width hmin hmax hlt)
  exact roundToInt64_nonneg hquotient.stored

theorem offset_of_overflows (hg : g.WithinByte) (h0 : 0 < value (form min))
    (hproduct : (-min * g.steps).isInf = true) (hwidth : (max - min).isFinite = true) :
    offset min max g = Int64.minValue := by
  have hinfinite : form (-min * g.steps) = .infinity .negative := by
    obtain ⟨m, e, hm, hform⟩ := exists_form_of_pos hmin h0
    obtain ⟨x, -, hstored⟩ := stored_product hg hform
    have hinf : (form (-min * g.steps)).isInf = true := hproduct
    generalize form (-min * g.steps) = u at *
    cases hstored with
    | infinite h => rfl
    | finite h =>
      cases h.regular with
      | zero s => cases hinf
      | finite hc => cases hinf
  have hrounds := rounds_width hmin hmax hlt hwidth
  have hform := form_div (-min * g.steps) (max - min)
  rw [hinfinite] at hform
  apply roundToInt64_of_infinity
  rw [hform]
  have hsigned := hrounds.signed
  have hregular := hrounds.regular
  generalize form (max - min) = w at *
  cases hregular with
  | zero s =>
    obtain rfl : s = .positive := hsigned
    exact stored_infinity .negative
  | @finite s m e hm hc =>
    obtain rfl : s = .positive := hsigned
    exact stored_infinity .negative

/-- While the product is finite it is at most `2 ^ 61` times the last place of the lower bound, which the width
reaches. -/
theorem offset_ge (hg : g.WithinByte) (h0 : 0 < value (form min))
    (hproduct : (-min * g.steps).isInf = false)
    (hwidth : (max - min).isFinite = true) : -2 ^ 62 ≤ (offset min max g).toInt := by
  obtain ⟨m, e, hm, hform⟩ := exists_form_of_pos hmin h0
  obtain ⟨n, f, hn, hform'⟩ := exists_form_of_pos hmax (h0.trans hlt)
  have hleast : -1074 ≤ e := (canonical_form hform).least
  have hwidth' := rounds_width hmin hmax hlt hwidth
  have hwide : (2 : ℚ) ^ e ≤ size (form (max - min)) := by
    refine hwidth'.le_size e hleast ?_
    rw [hform, hform'] at hlt ⊢
    exact zpow_le_value_sub (canonical_form hform) (canonical_form hform') hlt
  obtain ⟨x, hx, hstored⟩ := stored_product hg hform
  have hkept : form (-min * g.steps) ≠ .infinity (-.positive) := fun heq => by
    have hinf : (form (-min * g.steps)).isInf = false := hproduct
    rw [heq] at hinf
    cases hinf
  have hproduct' := hstored.rounds hkept
  obtain ⟨hregular, hsize⟩ := size_div_le hproduct'.regular hwidth'.regular (by decide) (by decide)
    (hproduct'.size_le (e + 61) (by omega) hx) hwide
  exact le_roundToInt64 hregular (by exact_mod_cast hsize)

end Bounds

/-- The sum of a zero point fits unless the range overflows. -/
theorem sumFits_or_sumOverflows (hg : g.WithinByte) (h : Sums min max) :
    (¬Overflows min max g → SumFits min max g) ∧ (Overflows min max g → SumOverflows min max g) := by
  rcases h.width with hwide | ⟨hmin, hmax, hwidth⟩
  · have hoffset : offset min max g = 0 := offset_of_wide hwide
    constructor
    · intro _
      apply sumFits_of_offset_ge hg h
      rw [hoffset]
      decide
    · intro ho
      have hfinite : (form (max - min)).isFinite = true := ho.width
      rw [hwide] at hfinite
      cases hfinite
  · have hlt := value_lt_of_sums hmin hmax h
    have hpos : 0 < min ↔ 0 < value (form min) := lt_iff_value (by decide) hmin
    constructor
    · intro hnot
      apply sumFits_of_offset_ge hg h
      rcases le_or_gt (value (form min)) 0 with hle | hgt
      · have hnonneg := offset_nonneg hmin hmax hlt hg hle
        omega
      · have hproduct : (-min * g.steps).isInf = false :=
          Bool.eq_false_iff.2 fun hproduct => hnot ⟨hpos.2 hgt, hproduct, hwidth⟩
        exact offset_ge hmin hmax hlt hg hgt hproduct hwidth
    · intro ho
      exact sumOverflows_of_offset_eq hg h
        (offset_of_overflows hmin hmax hlt hg (hpos.1 ho.min_pos) ho.product ho.width)

/-- The ranges without a map, told by their bounds. -/
theorem derive?_eq_none_iff_overflows (hg : g.WithinByte) :
    derive? min max g = none ↔ Sums min max ∧ Overflows min max g := by
  constructor
  · intro h
    have hs : Sums min max := ((derive?_eq_none_iff hg.toIsSigned).1 h).1
    refine ⟨hs, Classical.byContradiction fun ho => ?_⟩
    obtain ⟨p, hp, -⟩ := ((sumFits_or_sumOverflows hg hs).1 ho).derived
    cases hp.symm.trans h
  · rintro ⟨hs, ho⟩
    exact ((sumFits_or_sumOverflows hg hs).2 ho).underived

end Affine
end Calibration
