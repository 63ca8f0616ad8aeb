import Calibration.Quant.ElementType

/-! # Zero points on their grids

The grid of a bit width has points on both sides of zero. A range that is none is mapped with zero at zero, and
so is a centred one; any other zero point is a sum that is brought onto the grid, and there is no map only where
that sum is below all words. So every map has its zero point on the grid, whatever the bounds are, also if they
are not numbers.
-/
namespace Calibration

namespace Grid

structure Contains (g : Grid) (z : Int64) : Prop where
  low_le : g.low ≤ z
  le_high : z ≤ g.high

/-- Zero lies between the ends, which are as far apart as some width between 2 and 32 bits allows. -/
structure IsSigned (g : Grid) : Prop where
  low_neg : g.low < 0
  high_pos : 0 < g.high
  three_le_span : 3 ≤ g.span
  span_le : g.span ≤ 0xffffffff

variable {g : Grid}

theorem IsSigned.contains_zero (h : g.IsSigned) : g.Contains 0 :=
  ⟨Int64.le_of_lt h.low_neg, Int64.le_of_lt h.high_pos⟩

theorem IsSigned.low_le_high (h : g.IsSigned) : g.low ≤ g.high :=
  Int64.le_trans h.contains_zero.low_le h.contains_zero.le_high

theorem IsSigned.checkedWord?_span (h : g.IsSigned) : ∃ w, checkedWord? g.span = some w := by
  have hlow := h.three_le_span
  have hhigh := h.span_le
  cases hw : checkedWord? g.span with
  | some w => exact ⟨w, rfl⟩
  | none =>
    have hmin : Int64.minValue.toInt = -2 ^ 63 := by decide
    have hmax : Int64.maxValue.toInt = 2 ^ 63 - 1 := by decide
    rcases checkedWord?_eq_none_iff.1 hw with h | h <;> omega

theorem exists_clamp? (h : g.low ≤ g.high) (i : Int64) : ∃ z, g.clamp? i = some z := by
  rw [clamp?, if_neg (Int64.not_lt.2 h)]
  exact ⟨_, rfl⟩

theorem contains_of_clamp? {i z : Int64} (h : g.clamp? i = some z) : g.Contains z := by
  unfold clamp? at h
  split at h
  · cases h
  · next hle =>
    have hle := Int64.not_lt.1 hle
    cases h
    split
    · exact ⟨Int64.le_refl _, hle⟩
    · next hlow =>
      split
      · exact ⟨hle, Int64.le_refl _⟩
      · next hhigh => exact ⟨Int64.not_lt.1 hlow, Int64.not_lt.1 hhigh⟩

/-- A grid as wide as a width allows, from the bounds of half its points. -/
theorem isSigned_of_half {half : Int} (hlow : 2 ≤ half) (hhigh : half ≤ 0x80000000) :
    IsSigned ⟨.ofInt (-half), .ofInt (half - 1)⟩ := by
  have hneg : (Int64.ofInt (-half)).toInt = -half := Int64.toInt_ofInt_of_le (by omega) (by omega)
  have hpos : (Int64.ofInt (half - 1)).toInt = half - 1 :=
    Int64.toInt_ofInt_of_le (by omega) (by omega)
  have hspan : span ⟨.ofInt (-half), .ofInt (half - 1)⟩ = 2 * half - 1 := by
    rw [span, hneg, hpos]
    omega
  constructor
  · rw [Int64.lt_iff_toInt_lt, hneg]
    change -half < 0
    omega
  · rw [Int64.lt_iff_toInt_lt, hpos]
    change 0 < half - 1
    omega
  · omega
  · omega

theorem isSigned_ofWidth (bits : Nat) : (ofWidth bits).IsSigned := by
  have hlow : 2 ^ 1 ≤ 2 ^ (max 2 (min bits 32) - 1) := Nat.pow_le_pow_right (by decide) (by omega)
  have hhigh : 2 ^ (max 2 (min bits 32) - 1) ≤ 2 ^ 31 := Nat.pow_le_pow_right (by decide) (by omega)
  have hhalf : Int.pow 2 (max 2 (min bits 32) - 1) = (2 ^ (max 2 (min bits 32) - 1) : Nat) := by
    rw [Int.natCast_pow]
    rfl
  unfold ofWidth
  rw [hhalf]
  exact isSigned_of_half (by omega) (by omega)

theorem isSigned_forBits (bits : Nat) (asymmetric : Bool) : (forBits bits asymmetric).IsSigned := by
  unfold forBits
  split
  · constructor <;> decide
  · split
    · cases asymmetric <;> constructor <;> decide
    · exact isSigned_ofWidth bits

end Grid

namespace Affine

/-- Where a zero point is summed up: there is a range, and it is not centred. -/
structure Sums (min max : Float) : Prop where
  range : isDegenerate min max = false
  uncentred : isCentred min max = false

variable {min max : Float} {g : Grid} {p : Affine}

theorem derive?_grid (h : derive? min max g = some p) : p.grid = g := by
  unfold derive? at h
  split at h
  · cases h
    rfl
  · split at h
    · cases h
    · obtain ⟨z, -, rfl⟩ := Option.map_eq_some_iff.1 h
      rfl

/-- A zero point is summed up on a grid of words, and has to be one itself. -/
theorem derive?_of_sums (hg : g.IsSigned) (h : Sums min max) :
    derive? min max g = ((checkedWord? (sum min max g)).bind g.clamp?).map
      fun z => ⟨(max - min) / g.steps, z, g⟩ := by
  obtain ⟨w, hw⟩ := hg.checkedWord?_span
  simp [derive?, zeroPoint?, h.range, h.uncentred, hw]

theorem exists_derive?_of_not_sums (hg : g.IsSigned) (h : ¬Sums min max) :
    ∃ p, derive? min max g = some p ∧ p.zeroPoint = 0 := by
  obtain ⟨w, hw⟩ := hg.checkedWord?_span
  cases hd : isDegenerate min max with
  | true => exact ⟨⟨1, 0, g⟩, by rw [derive?, if_pos hd], rfl⟩
  | false =>
    have hc : isCentred min max = true := Bool.of_not_eq_false fun hc => h ⟨hd, hc⟩
    exact ⟨⟨(max - min) / g.steps, 0, g⟩, by simp [derive?, zeroPoint?, hd, hc, hw], rfl⟩

/-- Degenerate, centred or brought onto the grid. -/
theorem contains_of_derive? (hg : g.IsSigned) (h : derive? min max g = some p) :
    g.Contains p.zeroPoint := by
  by_cases hs : Sums min max
  · rw [derive?_of_sums hg hs] at h
    obtain ⟨z, hz, rfl⟩ := Option.map_eq_some_iff.1 h
    obtain ⟨w, -, hz⟩ := Option.bind_eq_some_iff.1 hz
    exact Grid.contains_of_clamp? hz
  · obtain ⟨p', hp', hzero⟩ := exists_derive?_of_not_sums hg hs
    cases hp'.symm.trans h
    rw [hzero]
    exact hg.contains_zero

/-- The lowest point of a grid is below zero, so a sum with it is never above all words. -/
theorem sum_le (hg : g.IsSigned) (min max : Float) : sum min max g ≤ Int64.maxValue.toInt := by
  have hlow : g.low.toInt < 0 := Int64.lt_iff_toInt_lt.1 hg.low_neg
  have hoffset := (offset min max g).toInt_le
  unfold sum
  omega

/-- The sum is the only place where a map can be lost. -/
theorem derive?_eq_none_iff (hg : g.IsSigned) :
    derive? min max g = none ↔ Sums min max ∧ sum min max g < Int64.minValue.toInt := by
  constructor
  · intro h
    by_cases hs : Sums min max
    · refine ⟨hs, ?_⟩
      rw [derive?_of_sums hg hs, Option.map_eq_none_iff] at h
      cases hw : checkedWord? (sum min max g) with
      | none => exact (checkedWord?_eq_none_iff.1 hw).resolve_right (Int.not_lt.2 (sum_le hg min max))
      | some w =>
        obtain ⟨z, hz⟩ := Grid.exists_clamp? hg.low_le_high w
        rw [hw, Option.bind_some, hz] at h
        cases h
    · obtain ⟨p, hp, -⟩ := exists_derive?_of_not_sums hg hs
      cases hp.symm.trans h
  · rintro ⟨hs, hbelow⟩
    rw [derive?_of_sums hg hs, checkedWord?_eq_none_iff.2 (.inl hbelow)]
    rfl

end Affine

/-- Integer storage has parameters, on the grid of its width in this mode, and float storage has none. -/
inductive CalibratedType.OnGrid (asymmetric : Bool) : CalibratedType → Prop
  | int8 {min max : Float} {p : Affine} (hg : p.grid = ⟨-128, 127⟩) (hz : p.grid.Contains p.zeroPoint) :
    OnGrid asymmetric ⟨.int8, min, max, some p⟩
  | int4 {min max : Float} {p : Affine} (hg : p.grid = if asymmetric then ⟨-8, 7⟩ else ⟨-7, 7⟩)
    (hz : p.grid.Contains p.zeroPoint) : OnGrid asymmetric ⟨.int4, min, max, some p⟩
  | bf16 {min max : Float} : OnGrid asymmetric ⟨.bf16, min, max, none⟩
  | f32 {min max : Float} : OnGrid asymmetric ⟨.f32, min, max, none⟩

theorem CalibratedType.of_ofRange? {storage : Storage} {min max : Float} {asymmetric : Bool}
    {type : CalibratedType} (h : ofRange? storage min max asymmetric = some type) :
    type.storage = storage ∧ type.min = min ∧ type.max = max := by
  unfold ofRange? at h
  split at h
  · cases h
    exact ⟨rfl, rfl, rfl⟩
  · obtain ⟨p, -, rfl⟩ := Option.map_eq_some_iff.1 h
    exact ⟨rfl, rfl, rfl⟩

/-- A type that is made of a range has its map on the grid of its storage. -/
theorem CalibratedType.onGrid_of_ofRange? {storage : Storage} {min max : Float} {asymmetric : Bool}
    {type : CalibratedType} (h : ofRange? storage min max asymmetric = some type) :
    type.OnGrid asymmetric := by
  have hon {bits : Nat} {p : Affine}
      (hp : Affine.derive? min max (Grid.forBits bits asymmetric) = some p) :
      p.grid = Grid.forBits bits asymmetric ∧ p.grid.Contains p.zeroPoint := by
    have hgrid := Affine.derive?_grid hp
    exact ⟨hgrid, hgrid ▸ Affine.contains_of_derive? (Grid.isSigned_forBits bits asymmetric) hp⟩
  cases storage with
  | int8 =>
    obtain ⟨p, hp, rfl⟩ := Option.map_eq_some_iff.1 h
    exact .int8 (hon hp).1 (hon hp).2
  | int4 =>
    obtain ⟨p, hp, rfl⟩ := Option.map_eq_some_iff.1 h
    exact .int4 (hon hp).1 (hon hp).2
  | bf16 =>
    cases h
    exact .bf16
  | f32 =>
    cases h
    exact .f32

end Calibration
