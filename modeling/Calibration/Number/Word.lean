/-! # Integers as words

Sums and differences of words are formed as integers first, and texts hold integers of any size. Either may be
too large to be a word.
-/
namespace Calibration

def checkedWord? (i : Int) : Option Int64 :=
  if Int64.minValue.toInt ≤ i ∧ i ≤ Int64.maxValue.toInt then some (Int64.ofInt i) else none

theorem checkedWord?_toInt (w : Int64) : checkedWord? w.toInt = some w := by
  rw [checkedWord?, if_pos ⟨w.minValue_le_toInt, w.toInt_le⟩, Int64.ofInt_toInt]

theorem checkedWord?_eq_some_iff {i : Int} {w : Int64} : checkedWord? i = some w ↔ w.toInt = i := by
  constructor
  · intro h
    unfold checkedWord? at h
    split at h
    · next hi =>
      cases h
      exact Int64.toInt_ofInt_of_le hi.1 (Int.lt_add_one_of_le hi.2)
    · cases h
  · rintro rfl
    exact checkedWord?_toInt w

theorem checkedWord?_eq_none_iff {i : Int} :
    checkedWord? i = none ↔ i < Int64.minValue.toInt ∨ Int64.maxValue.toInt < i := by
  rw [checkedWord?, ite_eq_right_iff]
  simp only [reduceCtorEq, imp_false, Decidable.not_and_iff_or_not, Int.not_le]

end Calibration
