import Calibration.Proofs.Plan.Floats
import Calibration.Proofs.Plan.Ranges

/-! # Zero points of recorded ranges

A range from a table has finite bounds. Where its zero point is summed up the words hold the sum, so that it does not
matter what they do beyond their ends, unless the range is recorded and lies far above zero.
-/
namespace Calibration

/-- Where the zero point of a record from a table is summed up, the sum fits a word and is brought onto the grid,
unless the recorded range overflows. Then there is no map, and words that wrap would put zero at the upper end of
the grid instead of the lower. -/
theorem zero_point_sums_of_parsed {text : String} {parsed : Table.Parsed} (h : Table.parseText text = .ok parsed)
    {name : String} {r : Record}
    (hr : parsed.tables.default.get? name = some r ∨ parsed.tables.int4.get? name = some r)
    (kind : OpKind) (asymmetric : Bool) {bits : Nat} (hbits : bits = 8 ∨ bits = 4)
    (hsums : Affine.Sums (kind.range r asymmetric).1 (kind.range r asymmetric).2) :
    ((kind.range r asymmetric).1.isFinite = true ∧ (kind.range r asymmetric).2.isFinite = true) ∧
    (¬Affine.Overflows (kind.range r asymmetric).1 (kind.range r asymmetric).2 (.forBits bits asymmetric) →
      Affine.SumFits (kind.range r asymmetric).1 (kind.range r asymmetric).2 (.forBits bits asymmetric)) ∧
    (Affine.Overflows (kind.range r asymmetric).1 (kind.range r asymmetric).2 (.forBits bits asymmetric) →
      Affine.SumOverflows (kind.range r asymmetric).1 (kind.range r asymmetric).2 (.forBits bits asymmetric) ∧
        asymmetric = true ∧ kind ≠ .abs ∧ kind ≠ .sigmoid) := by
  have htables : parsed.tables.Finite := Table.finite_of_parseLines h
  have hrecord : r.Finite := hr.elim (htables.default name r) (htables.int4 name r)
  obtain ⟨hfits, hoverflows⟩ :=
    Affine.sumFits_or_sumOverflows (Grid.withinByte_forBits hbits asymmetric) hsums
  exact ⟨kind.range_finite hrecord asymmetric, hfits,
    fun ho => ⟨hoverflows ho, OpKind.recorded_of_overflows hsums ho⟩⟩

def farText : String := "near 4 -1 3\nfar 1.5e308 1e308 1.5e308\n"

def farTables : Tables :=
  (Tables.empty.insertDefault "near" ⟨4, -1, 3⟩).insertDefault "far" ⟨1.5e308, 1e308, 1.5e308⟩

theorem zero_point_sums_of_farText :
    Affine.SumFits (-1) 3 (.forBits 4 true) ∧ Affine.SumOverflows 1e308 1.5e308 (.forBits 8 true) := by
  have hparsed : Table.parseText farText = .ok ⟨farTables, .complete⟩ := by decide +kernel
  have hnear : farTables.default.get? "near" = some ⟨4, -1, 3⟩ := by decide +kernel
  have hfar : farTables.default.get? "far" = some ⟨1.5e308, 1e308, 1.5e308⟩ := by decide +kernel
  have hsums : Affine.Sums (-1) 3 := ⟨by decide +kernel, by decide +kernel⟩
  have hsums' : Affine.Sums 1e308 1.5e308 := ⟨by decide +kernel, by decide +kernel⟩
  obtain ⟨-, hfits, -⟩ := zero_point_sums_of_parsed hparsed (.inl hnear) .conv true (.inr rfl) hsums
  obtain ⟨-, -, hoverflows⟩ :=
    zero_point_sums_of_parsed hparsed (.inl hfar) .conv true (.inl rfl) hsums'
  refine ⟨hfits fun ho => ?_, (hoverflows ⟨?_, ?_, ?_⟩).1⟩
  · exact absurd ho.min_pos (by decide +kernel)
  · decide +kernel
  · decide +kernel
  · decide +kernel

/-- Zero is below all of the range, and yet it is not put at the lower end. -/
theorem zero_point_of_far_range :
    Table.parseText farText = .ok ⟨farTables, .complete⟩ ∧
    farTables.default.get? "far" = some ⟨1.5e308, 1e308, 1.5e308⟩ ∧
    OpKind.conv.range ⟨1.5e308, 1e308, 1.5e308⟩ true = (1e308, 1.5e308) ∧
    ((1e308 : Float).isFinite = true ∧ (1.5e308 : Float).isFinite = true ∧ Affine.Sums 1e308 1.5e308) ∧
    Affine.sum 1e308 1.5e308 (.forBits 8 true) < Int64.minValue.toInt ∧
    (Grid.forBits 8 true).nearest (Affine.sum 1e308 1.5e308 (.forBits 8 true)) = -128 ∧
    OpKind.conv.affine? ⟨1.5e308, 1e308, 1.5e308⟩ true 8 = none ∧
    Affine.wrappedZeroPoint? 1e308 1.5e308 (.forBits 8 true) = some 127 := by
  refine ⟨by decide +kernel, by decide +kernel, rfl,
    ⟨by decide +kernel, by decide +kernel, ⟨?_, ?_⟩⟩, ?_, ?_, ?_, ?_⟩
  · decide +kernel
  · decide +kernel
  · decide +kernel
  · decide +kernel
  · decide +kernel
  · decide +kernel

end Calibration
