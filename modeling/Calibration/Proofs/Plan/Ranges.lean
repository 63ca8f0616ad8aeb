import Calibration.Plan.Range
import Calibration.Proofs.Quant.Offset

/-! # Ranges without a map

The range of a result is recorded, or fixed, or taken around zero or from zero up to a threshold. Only a recorded one
can lack a map onto the integers, and it does so only far above zero.
-/
namespace Calibration
open Binary64

theorem Affine.not_sums_neg (x : Float) : ¬Sums (-x) x := by
  rintro ⟨hrange, huncentred⟩
  unfold isDegenerate at hrange
  rw [Bool.or_eq_false_iff, Bool.or_eq_false_iff] at hrange
  have hnumber : (form x).isNaN = false := hrange.1.2
  have hnan : -x ≠ Float.nan := by
    intro heq
    have hform : (form x).neg = .notANumber := by
      rw [← form_neg, heq]
      rfl
    cases hx : form x with
    | notANumber =>
      rw [hx] at hnumber
      cases hnumber
    | _ =>
      rw [hx] at hform
      cases hform
  exact Bool.false_ne_true (huncentred.symm.trans (Float.beq_self_iff.2 hnan))

namespace OpKind
variable {r : Record} {kind : OpKind} {asymmetric : Bool}

/-- Any other range is centred or begins at zero. -/
theorem range_of_unrecorded (h : asymmetric = false ∨ kind = .abs ∨ kind = .sigmoid) :
    kind.range r asymmetric = (-r.threshold, r.threshold) ∨ (kind.range r asymmetric).1 = 0 := by
  rcases h with rfl | rfl | rfl
  · cases kind with
    | abs => exact .inl rfl
    | sigmoid => exact .inr rfl
    | _ =>
      by_cases hmin : r.min < 0
      · exact .inl (Prod.ext (if_pos hmin) rfl)
      · exact .inr (if_neg hmin)
  · exact .inl rfl
  · exact .inr rfl

theorem recorded_of_overflows {g : Grid}
    (h : Affine.Sums (kind.range r asymmetric).1 (kind.range r asymmetric).2)
    (ho : Affine.Overflows (kind.range r asymmetric).1 (kind.range r asymmetric).2 g) :
    asymmetric = true ∧ kind ≠ .abs ∧ kind ≠ .sigmoid := by
  have hrecorded : ¬(asymmetric = false ∨ kind = .abs ∨ kind = .sigmoid) := fun hunrecorded => by
    rcases range_of_unrecorded (r := r) hunrecorded with hrange | hzero
    · rw [hrange] at h
      exact Affine.not_sums_neg r.threshold h
    · have hpos := ho.min_pos
      rw [hzero] at hpos
      exact absurd hpos (by decide)
  rw [not_or, not_or, Bool.not_eq_false] at hrecorded
  exact hrecorded

variable {bits : Nat} (hbits : bits = 8 ∨ bits = 4)
include hbits

theorem affine?_eq_none_iff : kind.affine? r asymmetric bits = none ↔
    Affine.Sums (kind.range r asymmetric).1 (kind.range r asymmetric).2 ∧
      Affine.Overflows (kind.range r asymmetric).1 (kind.range r asymmetric).2
        (.forBits bits asymmetric) :=
  Affine.derive?_eq_none_iff_overflows (Grid.withinByte_forBits hbits asymmetric)

/-- Only a recorded range can lie so far above zero that it has no map. -/
theorem asymmetric_of_affine?_eq_none (h : kind.affine? r asymmetric bits = none) :
    asymmetric = true := by
  obtain ⟨hsums, ho⟩ := (affine?_eq_none_iff hbits).1 h
  exact (recorded_of_overflows hsums ho).1

end OpKind

namespace Settings
variable {s : Settings} {kind : OpKind} {r : Record}

/-- Float storage needs no map. -/
theorem typeFor?_default_eq_none_iff :
    s.typeFor? kind .default r = none ↔ s.precision = .int8 ∧ kind.affine? r s.asymmetric 8 = none := by
  obtain ⟨asymmetric, p⟩ := s
  cases p with
  | int8 =>
    refine Option.map_eq_none_iff.trans ⟨fun h => ⟨rfl, h⟩, fun h => h.2⟩
  | bf16 | f32 => exact ⟨nofun, nofun⟩

theorem typeFor?_int4_eq_none_iff :
    s.typeFor? kind .int4 r = none ↔ kind.affine? r s.asymmetric 4 = none :=
  Option.map_eq_none_iff

end Settings
end Calibration
