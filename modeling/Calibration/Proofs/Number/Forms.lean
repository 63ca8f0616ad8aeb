import Calibration.Proofs.Number.Bits
import Calibration.Proofs.Number.Nearest

/-! # Floats and their unpacked forms

Arithmetic unpacks its operands, and packs what it has rounded. The form that is unpacked is the scaled number for
which the bits stand. A form that is packed is unpacked as it was, unless it is too large for a float.
-/
namespace Calibration.Binary64
open Float.Model (Format UnpackedFloat)
open Float.Model.UnpackedFloat

def form (x : Float) : UnpackedFloat := unpack .binary64 x.toModel.toBits.toBitVec

def formOf (s : Sign) (bits : Nat) : UnpackedFloat :=
  if infinityBits < bits then .notANumber
  else if bits = infinityBits then .infinity s
  else if h : 0 < (Scaled.ofBits bits).significand then .finite s _ (Scaled.ofBits bits).exponent h
  else .zero s

def sign (x : Float) : Sign := if isNegative x then .negative else .positive

theorem Scaled.significand_ofBits_pos {bits : Nat} : 0 < (ofBits bits).significand ↔ 0 < bits := by
  unfold ofBits
  split
  · rfl
  · unfold hiddenBit at *
    dsimp only
    omega

theorem formOf_infinityBits (s : Sign) : formOf s infinityBits = .infinity s := by
  unfold formOf
  rw [if_neg (Nat.lt_irrefl _), if_pos rfl]

theorem formOf_zero (s : Sign) : formOf s 0 = .zero s := by
  unfold formOf
  rw [if_neg (by decide), if_neg (by decide), dif_neg (by decide)]

theorem formOf_finite {s : Sign} {bits m : Nat} {e : Int} (h : Scaled.ofBits bits = ⟨m, e⟩)
    (hm : 0 < m) (hlt : bits < infinityBits) : formOf s bits = .finite s m e hm := by
  have hpos : 0 < (Scaled.ofBits bits).significand := by rwa [h]
  unfold formOf
  rw [if_neg (by omega), if_neg (by omega), dif_pos hpos]
  simp only [h]

section Fields
variable (s : Sign) (e : BitVec Format.binary64.exponentBits)
  (m : BitVec Format.binary64.mantissaBitsWithoutImplicit)

theorem toNat_append_one : (1#1 ++ m).toNat = hiddenBit + m.toNat := by
  rw [BitVec.toNat_append, ← Nat.shiftLeft_add_eq_or_of_lt m.isLt]
  rfl

/-- The least exponent has no hidden bit, and the highest one is left to infinities and to what is no number. -/
theorem unpack_packComponents :
    unpack .binary64 (packComponents .binary64 s e m) = formOf s (e.toNat * hiddenBit + m.toNat) := by
  have he : e.toNat < 2048 := e.isLt
  have hm : m.toNat < 4503599627370496 := m.isLt
  have hfull : e = -1#_ ↔ e.toNat = 2047 := by
    rw [← BitVec.toNat_inj]
    rfl
  have hleast : e = 0#_ ↔ e.toNat = 0 := by
    rw [← BitVec.toNat_inj]
    rfl
  have hempty : m = 0#_ ↔ m.toNat = 0 := by
    rw [← BitVec.toNat_inj]
    rfl
  unfold UnpackedFloat.unpack
  simp only [unpackMantissa_packComponents, unpackExponent_packComponents, unpackSign_packComponents,
    Sign.ofBitVec_toBitVec]
  split
  · next h =>
    rw [hfull.1 h]
    split
    · next h' =>
      rw [hempty.1 h']
      exact (formOf_infinityBits s).symm
    · next h' =>
      have hpos := mt hempty.2 h'
      unfold formOf
      rw [if_pos (by unfold hiddenBit infinityBits; omega)]
  · next h =>
    have hlt : e.toNat * hiddenBit + m.toNat < infinityBits := by
      have hbelow := mt hfull.2 h
      unfold hiddenBit infinityBits
      omega
    split
    · next h' =>
      rw [hleast.1 h', Nat.zero_mul, Nat.zero_add] at hlt ⊢
      split
      · next h'' =>
        rw [hempty.1 h'']
        exact (formOf_zero s).symm
      · refine (formOf_finite ?_ _ hlt).symm
        unfold Scaled.ofBits hiddenBit
        rw [if_pos hm]
        rfl
    · next h' =>
      have hpos := mt hleast.2 h'
      refine (formOf_finite ?_ _ hlt).symm
      rw [toNat_append_one]
      unfold Scaled.ofBits hiddenBit
      rw [if_neg (by omega)]
      congr 1
      · omega
      · change (((e.toNat * 4503599627370496 + m.toNat) / 4503599627370496 : Nat) : Int) - 1075 =
          e.toNat - 1075
        omega

end Fields

theorem ofBitVec_unpackSign (b : BitVec Format.binary64.numBits) :
    Sign.ofBitVec (unpackSign b) = if signBit ≤ b.toNat then .negative else .positive := by
  have hb : b.toNat < 2 ^ 64 := b.isLt
  have htoNat : (unpackSign b).toNat = b.toNat / signBit % 2 := by
    simp [unpackSign_def, signBit, Nat.shiftRight_eq_div_pow]
  have hzero : unpackSign b = 0#1 ↔ ¬signBit ≤ b.toNat := by
    rw [← BitVec.toNat_inj, htoNat]
    unfold signBit
    dsimp only [BitVec.toNat_zero]
    omega
  unfold Sign.ofBitVec
  by_cases h : signBit ≤ b.toNat
  · rw [if_pos h, if_neg (hzero.not_left.2 h)]
  · rw [if_neg h, if_pos (hzero.2 h)]

theorem unpack_eq_formOf (b : BitVec Format.binary64.numBits) :
    unpack .binary64 b = formOf (Sign.ofBitVec (unpackSign b)) (b.toNat % signBit) := by
  have hb := packComponents_unpackSign_unpackExponent_unpackMantissa b
  have hbits := toNat_packComponents_mod (Sign.ofBitVec (unpackSign b)) (unpackExponent b) (unpackMantissa b)
  rw [hb, BitVec.toNat_append, ← Nat.shiftLeft_add_eq_or_of_lt (unpackMantissa b).isLt,
    Nat.shiftLeft_eq] at hbits
  rw [hbits]
  exact (congrArg _ hb).symm.trans (unpack_packComponents _ _ _)

theorem form_eq_formOf (x : Float) : form x = formOf (sign x) (magnitudeBits x) := by
  unfold form sign isNegative
  rw [unpack_eq_formOf, ofBitVec_unpackSign]
  simp only [decide_eq_true_eq]
  rfl

/-- The form of the float in which a form is stored. -/
def stored (u : UnpackedFloat) : UnpackedFloat := unpack .binary64 (pack .binary64 u)

theorem stored_notANumber : stored .notANumber = .notANumber := unpack_packedNaN

theorem stored_zero (s : Sign) : stored (.zero s) = .zero s := unpack_packedZero

theorem stored_infinity (s : Sign) : stored (.infinity s) = .infinity s := by
  have hbits : (-1#11).toNat * hiddenBit + (0#52).toNat = infinityBits := by decide
  have hformOf := formOf_infinityBits s
  rw [← hbits] at hformOf
  exact (unpack_packComponents _ _ _).trans hformOf

theorem Scaled.Canonical.ofBits_toBits {c : Scaled} (h : c.Canonical) : ofBits c.toBits = c := by
  obtain ⟨m, e⟩ := c
  have hpos := h.pos
  have hlt := h.lt
  have hleast := h.least
  have hfull := h.full
  dsimp only at *
  unfold toBits ofBits hiddenBit
  dsimp only
  split <;> congr 1 <;> omega

theorem Scaled.Canonical.toBits_lt {c : Scaled} (h : c.Canonical) (he : c.exponent ≤ 971) :
    c.toBits < infinityBits := by
  have hlt := h.lt
  unfold toBits hiddenBit infinityBits
  omega

/-- What is canonical is stored as it is unless its exponent is past the largest. -/
theorem stored_finite {s : Sign} {m : Nat} {e : Int} (hm : 0 < m) (h : Scaled.Canonical ⟨m, e⟩) :
    stored (.finite s m e hm) = if e ≤ 971 then .finite s m e hm else .infinity s := by
  have hlt := h.lt
  have hleast := h.least
  have hfull := h.full
  dsimp only at hlt hleast hfull
  have hbits : m.log2 + 1 = 53 ↔ 2 ^ 52 ≤ m := by
    have hlow := Nat.le_log2 (n := m) (k := 52) hm.ne'
    have hhigh := Nat.log2_lt (n := m) (k := 53) hm.ne'
    omega
  have hfraction : (BitVec.ofNat 52 m).toNat = m % hiddenBit := BitVec.toNat_ofNat m 52
  unfold stored UnpackedFloat.pack
  change unpack .binary64 (if 2048 ≤ (e + 1023 + 52).toNat + 1 then packedInfinity .binary64 s
    else if m.log2 + 1 = 53 then
      packComponents .binary64 s (BitVec.ofNat 11 (e + 1023 + 52).toNat) (BitVec.ofNat 52 m)
    else packComponents .binary64 s 0#11 (BitVec.ofNat 52 m)) = _
  by_cases he : e ≤ 971
  · rw [if_neg (by omega), if_pos he, ← formOf_finite h.ofBits_toBits hm (h.toBits_lt he)]
    split
    · next hnormal =>
      have hge := hbits.1 hnormal
      have hexponent : (BitVec.ofNat 11 (e + 1023 + 52).toNat).toNat = (e + 1075).toNat := by
        rw [BitVec.toNat_ofNat]
        omega
      have htoBits : (e + 1075).toNat * hiddenBit + m % hiddenBit = Scaled.toBits ⟨m, e⟩ := by
        unfold Scaled.toBits hiddenBit
        dsimp only
        omega
      rw [unpack_packComponents, hexponent, hfraction, htoBits]
    · next hshort =>
      have hlow := mt hbits.2 hshort
      have htoBits : 0 * hiddenBit + m % hiddenBit = Scaled.toBits ⟨m, e⟩ := by
        unfold Scaled.toBits hiddenBit
        dsimp only
        omega
      rw [unpack_packComponents, BitVec.toNat_zero, hfraction, htoBits]
  · rw [if_pos (by omega), if_neg he]
    exact stored_infinity s

theorem form_inj {x y : Float} : form x = form y ↔ x = y := by
  unfold form
  rw [unpack_inj_of_valid x.toModel.valid y.toModel.valid, UInt64.toBitVec_inj]
  exact Float.toBits_inj

section Finite
variable {x : Float} {s : Sign} {m : Nat} {e : Int} {hm : 0 < m}

theorem ofBits_magnitudeBits (h : form x = .finite s m e hm) :
    sign x = s ∧ magnitudeBits x < infinityBits ∧ Scaled.ofBits (magnitudeBits x) = ⟨m, e⟩ := by
  rw [form_eq_formOf] at h
  unfold formOf at h
  split at h
  · cases h
  · split at h
    · cases h
    · split at h
      · cases h
        exact ⟨rfl, by omega, rfl⟩
      · cases h

theorem canonical_form (h : form x = .finite s m e hm) : Scaled.Canonical ⟨m, e⟩ := by
  obtain ⟨-, -, hbits⟩ := ofBits_magnitudeBits h
  have hpos : 0 < (Scaled.ofBits (magnitudeBits x)).significand := by rwa [hbits]
  rw [← hbits]
  exact Scaled.canonical_ofBits (Scaled.significand_ofBits_pos.1 hpos)

def Scaled.rounded (c : Scaled) : Nat := (2 * c.numerator + c.denominator) / (2 * c.denominator)

theorem Scaled.rounded_le {c : Scaled} {k : Nat} (h : c.value ≤ 2 ^ k) : c.rounded ≤ 2 ^ k := by
  have hden : 0 < c.denominator := Nat.two_pow_pos _
  have hnum : c.numerator ≤ 2 ^ k * c.denominator := by
    have hmul : c.value * 2 ^ (-c.exponent).toNat ≤ 2 ^ k * 2 ^ (-c.exponent).toNat := by gcongr
    rw [Scaled.value, mul_assoc, zpow_mul_pow_toNat_neg two_ne_zero] at hmul
    exact_mod_cast hmul
  unfold rounded
  apply Nat.le_of_lt_succ
  apply Nat.div_lt_of_lt_mul
  calc 2 * c.numerator + c.denominator < 2 * (2 ^ k * c.denominator) + 2 * c.denominator := by omega
    _ = 2 * c.denominator * (2 ^ k + 1) := by ring

theorem toInt_roundToInt64 (h : form x = .finite s m e hm) :
    (roundToInt64 x).toInt =
      max Int64.minValue.toInt (min (s.apply (Scaled.rounded ⟨m, e⟩)) Int64.maxValue.toInt) := by
  obtain ⟨hsign, hlt, hbits⟩ := ofBits_magnitudeBits h
  have hvalue : (if isNegative x then -(Scaled.rounded ⟨m, e⟩ : Int) else Scaled.rounded ⟨m, e⟩) =
      s.apply (Scaled.rounded ⟨m, e⟩) := by
    rw [← hsign]
    unfold sign
    split <;> rfl
  unfold roundToInt64
  dsimp only
  rw [if_neg (by omega), hbits, Int64.toInt_ofInt_of_le]
  · exact congrArg (fun v => max _ (min v _)) hvalue
  · exact le_max_left _ _
  · exact Int.lt_of_le_of_lt (max_le (by decide) (min_le_right _ _)) (by decide)

end Finite
end Calibration.Binary64
