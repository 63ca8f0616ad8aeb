import Calibration.Number.Binary64
import Mathlib

/-! # Floats and their bits

A float is known from its bits, so it is known from its sign and the bits below. It is finite as long as
these stay below those of an infinity, and a change of sign leaves these bits alone.
-/
namespace Calibration.Binary64
open Float.Model (Format UnpackedFloat)
open Float.Model.UnpackedFloat

section Components
variable (b : BitVec Format.binary64.numBits)

theorem toNat_unpackExponent : (unpackExponent b).toNat = b.toNat / hiddenBit % 2048 := by
  simp [unpackExponent, hiddenBit, Nat.shiftRight_eq_div_pow]

/-- An infinity or no number has the highest exponent, and nothing else has. -/
theorem isFinite_unpack_iff :
    (unpack .binary64 b).isFinite = true ↔ b.toNat % signBit < infinityBits := by
  have hb : b.toNat < 2 ^ 64 := b.isLt
  have hexponent : unpackExponent b = -1#_ ↔ b.toNat / hiddenBit % 2048 = 2047 := by
    rw [← toNat_unpackExponent, ← BitVec.toNat_inj]
    rfl
  have hbits : b.toNat / hiddenBit % 2048 = 2047 ↔ ¬b.toNat % signBit < infinityBits := by
    unfold hiddenBit signBit infinityBits
    omega
  unfold UnpackedFloat.unpack
  dsimp only
  split
  · next h =>
    have hnot := hbits.1 (hexponent.1 h)
    split <;> simp [isFinite, hnot]
  · next h =>
    have hlt : b.toNat % signBit < infinityBits :=
      Decidable.byContradiction fun hc => h (hexponent.2 (hbits.2 hc))
    split
    · split <;> simp [isFinite, hlt]
    · simp [isFinite, hlt]

end Components

theorem isFinite_iff (x : Float) : x.isFinite = true ↔ magnitudeBits x < infinityBits :=
  isFinite_unpack_iff x.toModel.toBits.toBitVec

/-- The sign and the bits below it are all of a float. -/
theorem ofMagnitude_magnitudeBits (x : Float) :
    ofMagnitude (isNegative x) (magnitudeBits x) = x := by
  have hlt : x.toBits.toNat < 2 ^ 64 := x.toBits.toNat_lt
  have hword : (if isNegative x then signBit + magnitudeBits x else magnitudeBits x) =
      x.toBits.toNat := by
    unfold isNegative magnitudeBits signBit
    by_cases h : 0x8000000000000000 ≤ x.toBits.toNat
    · rw [if_pos (decide_eq_true h)]
      omega
    · rw [if_neg (by simpa using h)]
      omega
  rw [ofMagnitude, hword, UInt64.ofNat_toNat, Float.ofBits_toBits]

/-- The sign lies above the bits of the magnitude. -/
theorem toNat_packComponents_mod (s : Sign) (e : BitVec Format.binary64.exponentBits)
    (m : BitVec Format.binary64.mantissaBitsWithoutImplicit) :
    (packComponents .binary64 s e m).toNat % signBit = (e ++ m).toNat := by
  have hlt : (e ++ m).toNat < signBit := (e ++ m).isLt
  have hassoc : packComponents .binary64 s e m = s.toBitVec ++ (e ++ m) := BitVec.append_assoc
  rw [hassoc, BitVec.toNat_append, ← Nat.shiftLeft_add_eq_or_of_lt (e ++ m).isLt, Nat.shiftLeft_eq]
  change (s.toBitVec.toNat * signBit + (e ++ m).toNat) % signBit = (e ++ m).toNat
  rw [Nat.mul_comm, Nat.mul_add_mod, Nat.mod_eq_of_lt hlt]

theorem toNat_pack_neg_mod (u : UnpackedFloat) :
    (pack .binary64 u.neg).toNat % signBit = (pack .binary64 u).toNat % signBit := by
  have hsign (s : Sign) (e : BitVec Format.binary64.exponentBits)
      (m : BitVec Format.binary64.mantissaBitsWithoutImplicit) :
      (packComponents .binary64 (-s) e m).toNat % signBit =
        (packComponents .binary64 s e m).toNat % signBit := by
    rw [toNat_packComponents_mod, toNat_packComponents_mod]
  cases u with
  | notANumber => rfl
  | infinity s => exact hsign s _ _
  | zero s => exact hsign s _ _
  | finite s m e hm =>
    unfold neg pack
    dsimp only
    split
    · exact hsign s _ _
    · split <;> exact hsign s _ _

theorem magnitudeBits_neg (x : Float) : magnitudeBits (-x) = magnitudeBits x := by
  have hneg : magnitudeBits (-x) =
      (pack .binary64 (neg (unpack .binary64 x.toModel.toBits.toBitVec))).toNat % signBit := rfl
  rw [hneg, toNat_pack_neg_mod, pack_unpack_of_valid x.toModel.valid]
  rfl

theorem isFinite_neg (x : Float) : (-x).isFinite = x.isFinite := by
  rw [Bool.eq_iff_iff, isFinite_iff, isFinite_iff, magnitudeBits_neg]

end Calibration.Binary64

namespace Calibration

abbrev AllFinite (xs : List Float) : Prop := ∀ x ∈ xs, x.isFinite = true

theorem allFinite_append {xs ys : List Float} (hx : AllFinite xs) (hy : AllFinite ys) :
    AllFinite (xs ++ ys) := by
  intro x h
  rcases List.mem_append.1 h with h | h
  · exact hx x h
  · exact hy x h

theorem allFinite_flatMap {α : Type} {as : List α} {f : α → List Float}
    (h : ∀ a ∈ as, AllFinite (f a)) : AllFinite (as.flatMap f) := by
  intro x hx
  obtain ⟨a, ha, hx⟩ := List.mem_flatMap.1 hx
  exact h a ha x hx

end Calibration
