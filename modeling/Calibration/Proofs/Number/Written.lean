import Calibration.Number.Layout
import Calibration.Number.Literal
import Calibration.Proofs.Number.ReadBack
import Calibration.Proofs.Text.Runs

/-! # Literals and their texts

A literal is taken apart as it was put together. In stored data every finite float is the text of a literal
with a fraction or an exponent, and the literal reads as the float.
-/
namespace Calibration

namespace Literal

def fractionText (fraction : Option (List Char)) : List Char := fraction.elim [] fun ds => '.' :: ds

def exponentText (exponent : Option Int) : List Char :=
  exponent.elim [] fun e => 'e' :: (if e < 0 then '-' else '+') :: Nat.toDigits 10 e.natAbs

def text (l : Literal) : List Char :=
  l.sign.toList ++ (l.whole ++ (fractionText l.fraction ++ exponentText l.exponent))

structure Proper (l : Literal) : Prop where
  sign : l.sign = none ∨ l.sign = some '-'
  whole_ne_nil : l.whole ≠ []
  whole : ∀ c ∈ l.whole, c.isDigit = true
  fraction : ∀ ds, l.fraction = some ds → ∀ c ∈ ds, c.isDigit = true

def Stops (cs : List Char) : Prop := ∀ c, cs.head? = some c → c.isDigit = false

theorem isDigit_of_mem_toDigits {n : Nat} : ∀ c ∈ Nat.toDigits 10 n, c.isDigit = true :=
  fun _ hc => Nat.isDigit_of_mem_toDigits (by decide) (by decide) hc

theorem stops_exponentText (exponent : Option Int) : Stops (exponentText exponent) := by
  cases exponent with
  | none => exact nofun
  | some e =>
    intro c hc
    cases hc
    rfl

theorem readExponent?_exponentText (exponent : Option Int) :
    readExponent? (exponentText exponent) = some exponent := by
  cases exponent with
  | none => rfl
  | some e =>
    have hne : Nat.toDigits 10 e.natAbs ≠ [] := Nat.toDigits_ne_nil
    have hall : (Nat.toDigits 10 e.natAbs).all Char.isDigit = true :=
      List.all_eq_true.2 isDigit_of_mem_toDigits
    have hvalue : natOfDigits (Nat.toDigits 10 e.natAbs) = e.natAbs := Nat.ofDigitChars_ten_toDigits
    by_cases he : e < 0
    · simp only [exponentText, Option.elim_some, if_pos he, readExponent?, takeSign]
      simp only [hall, hvalue, true_or, hne, ne_eq, not_false_eq_true, and_self, if_true]
      congr 2
      omega
    · simp only [exponentText, Option.elim_some, if_neg he, readExponent?, takeSign]
      simp only [hall, hvalue, true_or, hne, ne_eq, not_false_eq_true, and_self, if_true]
      rw [if_neg (by decide)]
      congr 2
      omega

theorem takeFraction_append {fraction : Option (List Char)} {rest : List Char}
    (hfraction : ∀ ds, fraction = some ds → ∀ c ∈ ds, c.isDigit = true) (hrest : Stops rest)
    (hpoint : rest.head? ≠ some '.') :
    takeFraction (fractionText fraction ++ rest) = (fraction, rest) := by
  cases fraction with
  | none =>
    cases rest with
    | nil => rfl
    | cons c rest =>
      have hc : c ≠ '.' := fun h => hpoint (congrArg some h)
      unfold fractionText takeFraction
      split
      · next h => exact absurd (List.head_eq_of_cons_eq h) hc
      · rfl
  | some ds =>
    have hds := hfraction ds rfl
    change (some ((ds ++ rest).takeWhile Char.isDigit), (ds ++ rest).dropWhile Char.isDigit) = _
    rw [Text.takeWhile_append hds hrest, Text.dropWhile_append hds hrest]

/-- What has been put together is taken apart again. -/
theorem split?_text {l : Literal} (h : l.Proper) : split? l.text = some l := by
  obtain ⟨sign, whole, fraction, exponent⟩ := l
  have hexponent := stops_exponentText exponent
  have hpoint : (exponentText exponent).head? ≠ some '.' := by cases exponent <;> simp [exponentText]
  have hrest : Stops (fractionText fraction ++ exponentText exponent) := by
    cases fraction with
    | none => exact hexponent
    | some ds =>
      intro c hc
      cases hc
      rfl
  have hwhole := h.whole
  dsimp only at hwhole
  have hsign : takeSign (sign.toList ++ (whole ++ (fractionText fraction ++ exponentText exponent))) =
      (sign, whole ++ (fractionText fraction ++ exponentText exponent)) := by
    rcases h.sign with hs | hs
    · dsimp only at hs
      subst hs
      -- The first digit is taken for no sign.
      obtain ⟨d, ds, rfl⟩ := List.exists_cons_of_ne_nil h.whole_ne_nil
      have hd : d.isDigit = true := hwhole d List.mem_cons_self
      change takeSign (d :: _) = _
      unfold takeSign
      split
      · next heq =>
        rw [List.head_eq_of_cons_eq heq] at hd
        exact absurd hd (by decide)
      · next heq =>
        rw [List.head_eq_of_cons_eq heq] at hd
        exact absurd hd (by decide)
      · rfl
    · dsimp only at hs
      subst hs
      rfl
  unfold split? text
  dsimp only
  rw [hsign]
  dsimp only
  rw [Text.takeWhile_append hwhole hrest, Text.dropWhile_append hwhole hrest,
    takeFraction_append h.fraction hexponent hpoint]
  dsimp only
  rw [readExponent?_exponentText]
  rfl

end Literal

theorem head?_toDigits_ne_zero {n : Nat} (h : n ≠ 0) : (Nat.toDigits 10 n).head? ≠ some '0' := by
  induction n using Nat.strongRecOn with
  | ind n ih =>
    by_cases hlt : n < 10
    · rw [Nat.toDigits_of_lt_base hlt]
      have hall : ∀ m, m < 10 → m ≠ 0 → [m.digitChar].head? ≠ some '0' := by decide
      exact hall n hlt h
    · rw [Nat.toDigits_of_base_le (by decide) (by omega)]
      have hne : Nat.toDigits 10 (n / 10) ≠ [] := Nat.toDigits_ne_nil
      rw [List.head?_append_of_ne_nil _ hne]
      exact ih (n / 10) (by omega) (by omega)

theorem Decimal.magnitudeBits_mul_pow_ten {c : Nat} (e : Int) (h : c ≠ 0) (n : Nat) :
    magnitudeBits (c * 10 ^ n) e = magnitudeBits c (e + n) := by
  induction n generalizing e with
  | zero => simp
  | succ n ih =>
    have hne : c * 10 ^ n ≠ 0 := Nat.mul_ne_zero h (Nat.pow_pos (by decide)).ne'
    rw [pow_succ, ← mul_assoc, magnitudeBits_mul_ten _ _ hne, ih]
    congr 1
    push_cast
    ring

namespace Layout
open Literal

/-- A proper literal without a sign that is no integer and reads as the float with these bits. -/
structure Denotes (l : Literal) (bits : Nat) : Prop where
  proper : l.Proper
  sign : l.sign = none
  json : l.isJsonNumber = true
  not_integer : ¬(l.fraction = none ∧ l.exponent = none)
  bits : Decimal.magnitudeBits l.toDecimal.coefficient l.toDecimal.exponent = bits

theorem isJsonNumber_of {l : Literal} (hsign : l.sign ≠ some '+')
    (hwhole : l.whole = ['0'] ∨ l.whole ≠ [] ∧ l.whole.head? ≠ some '0')
    (hfraction : l.fraction ≠ some []) : l.isJsonNumber = true := by
  unfold isJsonNumber
  rcases hwhole with hwhole | ⟨hne, hhead⟩
  · simp [hsign, hwhole, hfraction]
  · simp [hsign, hne, hhead, hfraction]

section Digits
variable {digits : List Char} {c : Nat} {e : Int} {bits : Nat}
  (hdigits : ∀ d ∈ digits, d.isDigit = true) (hvalue : natOfDigits digits = c)
  (hhead : digits.head? ≠ some '0') (hne : digits ≠ [])
  (hbits : Decimal.magnitudeBits c e = bits)

theorem isDigit_of_mem_replicate (n : Nat) : ∀ d ∈ List.replicate n '0', d.isDigit = true := by
  intro d hd
  rw [List.eq_of_mem_replicate hd]
  rfl

include hdigits hvalue hhead hne hbits

/-- Zeros are put behind the digits of a whole number. -/
theorem exists_denotes_whole (hc : c ≠ 0) (he : 0 ≤ e) :
    ∃ l, Denotes l bits ∧ l.text = digits ++ List.replicate e.toNat '0' ++ ['.', '0'] := by
  refine ⟨⟨none, digits ++ List.replicate e.toNat '0', some ['0'], none⟩, ?_, ?_⟩
  · refine ⟨⟨.inl rfl, by simp [hne], ?_, ?_⟩, rfl, ?_, by simp, ?_⟩
    · intro d hd
      rcases List.mem_append.1 hd with hd | hd
      · exact hdigits d hd
      · exact isDigit_of_mem_replicate _ d hd
    · intro ds hds
      cases hds
      exact isDigit_of_mem_replicate 1
    · refine isJsonNumber_of (by simp) (.inr ⟨by simp [hne], ?_⟩) (by simp)
      rw [List.head?_append_of_ne_nil _ hne]
      exact hhead
    · have hcoefficient : natOfDigits (digits ++ List.replicate e.toNat '0' ++ ['0']) =
          c * 10 ^ (e.toNat + 1) := by
        rw [List.append_assoc, ← List.replicate_succ', natOfDigits, Nat.ofDigitChars_append,
          Nat.ofDigitChars_replicate_zero]
        rw [natOfDigits] at hvalue
        rw [hvalue, mul_comm]
      have hexponent : (-1 : Int) + (e.toNat + 1 : ℕ) = e := by omega
      change Decimal.magnitudeBits (natOfDigits _) (-1) = bits
      rw [Option.getD_some, hcoefficient, Decimal.magnitudeBits_mul_pow_ten _ hc, hexponent, hbits]
  · simp [text, fractionText, exponentText]

/-- The point stands between the digits, with `k` of them before it. -/
theorem exists_denotes_inside {k : Nat} (hk : 0 < k) (he : e + digits.length = k) (hneg : e < 0) :
    ∃ l, Denotes l bits ∧ l.text = digits.take k ++ '.' :: digits.drop k := by
  have hlt : k < digits.length := by omega
  have htake : digits.take k ≠ [] := by
    simp only [ne_eq, List.take_eq_nil_iff, hne, or_false]
    omega
  have hdrop : digits.drop k ≠ [] := by
    simp only [ne_eq, List.drop_eq_nil_iff]
    omega
  refine ⟨⟨none, digits.take k, some (digits.drop k), none⟩, ?_, ?_⟩
  · refine ⟨⟨.inl rfl, htake, fun d hd => hdigits d (List.mem_of_mem_take hd), ?_⟩, rfl, ?_,
      by simp, ?_⟩
    · intro ds hds
      cases hds
      exact fun d hd => hdigits d (List.mem_of_mem_drop hd)
    · refine isJsonNumber_of (by simp) (.inr ⟨htake, ?_⟩) (by simpa using hdrop)
      rw [List.head?_take, if_neg (by omega)]
      exact hhead
    · have hexponent : 0 - ((digits.drop k).length : Int) = e := by
        rw [List.length_drop]
        omega
      change Decimal.magnitudeBits (natOfDigits (digits.take k ++ digits.drop k))
        (0 - ((digits.drop k).length : Int)) = bits
      rw [List.take_append_drop, hvalue, hexponent, hbits]
  · simp [text, fractionText, exponentText]

omit hhead in
/-- All digits stand behind the point and `k` zeros. -/
theorem exists_denotes_below {k : Nat} (he : e + digits.length = -k) :
    ∃ l, Denotes l bits ∧ l.text = '0' :: '.' :: List.replicate k '0' ++ digits := by
  refine ⟨⟨none, ['0'], some (List.replicate k '0' ++ digits), none⟩, ?_, ?_⟩
  · refine ⟨⟨.inl rfl, by simp, by simp, ?_⟩, rfl, ?_, by simp, ?_⟩
    · intro ds hds
      cases hds
      intro d hd
      rcases List.mem_append.1 hd with hd | hd
      · exact isDigit_of_mem_replicate _ d hd
      · exact hdigits d hd
    · exact isJsonNumber_of (by simp) (.inl rfl) (by simp [hne])
    · have hcoefficient : natOfDigits (['0'] ++ (List.replicate k '0' ++ digits)) = c := by
        have hzeros : ['0'] ++ (List.replicate k '0' ++ digits) =
          List.replicate (k + 1) '0' ++ digits := by simp [List.replicate_succ]
        rw [hzeros, natOfDigits, Nat.ofDigitChars_append, Nat.ofDigitChars_replicate_zero,
          Nat.mul_zero]
        exact hvalue
      have hexponent : 0 - ((List.replicate k '0' ++ digits).length : Int) = e := by
        rw [List.length_append, List.length_replicate]
        omega
      change Decimal.magnitudeBits (natOfDigits (['0'] ++ (List.replicate k '0' ++ digits)))
        (0 - ((List.replicate k '0' ++ digits).length : Int)) = bits
      rw [hcoefficient, hexponent, hbits]
  · simp [text, fractionText, exponentText]

theorem exists_denotes_aroundPoint (hc : c ≠ 0) :
    ∃ l, Denotes l bits ∧ l.text = stored.aroundPoint digits e := by
  have hpos : 0 < digits.length := List.length_pos_iff.2 hne
  unfold aroundPoint
  dsimp only
  by_cases he : 0 ≤ e
  · rw [if_pos he]
    exact exists_denotes_whole hdigits hvalue hhead hne hbits hc he
  · rw [if_neg he]
    by_cases hlead : 0 ≤ e + digits.length - 1
    · rw [if_pos hlead]
      exact exists_denotes_inside hdigits hvalue hhead hne hbits (by omega) (by omega) (by omega)
    · rw [if_neg hlead]
      exact exists_denotes_below hdigits hvalue hne hbits (by omega)

theorem exists_denotes_withExponent :
    ∃ l, Denotes l bits ∧ l.text = withExponent digits (e + digits.length - 1) := by
  match digits, hne with
  | [d], _ =>
    refine ⟨⟨none, [d], none, some (e + ([d].length : Nat) - 1)⟩, ?_, ?_⟩
    · refine ⟨⟨.inl rfl, by simp, hdigits, nofun⟩, rfl, ?_, by simp, ?_⟩
      · exact isJsonNumber_of (by simp) (.inr ⟨by simp, hhead⟩) (by simp)
      · change Decimal.magnitudeBits (natOfDigits ([d] ++ [])) (e + ([d].length : Nat) - 1 - 0) = bits
        rw [List.append_nil, hvalue]
        simpa using hbits
    · simp [text, fractionText, exponentText, withExponent]
  | d :: second :: rest, _ =>
    refine ⟨⟨none, [d], some (second :: rest), some (e + ((d :: second :: rest).length : Nat) - 1)⟩,
      ?_, ?_⟩
    · refine ⟨⟨.inl rfl, by simp, ?_, ?_⟩, rfl, ?_, by simp, ?_⟩
      · intro x hx
        rw [List.mem_singleton.1 hx]
        exact hdigits d List.mem_cons_self
      · intro ds hds
        cases hds
        exact fun x hx => hdigits x (List.mem_cons_of_mem d hx)
      · exact isJsonNumber_of (by simp) (.inr ⟨by simp, hhead⟩) (by simp)
      · have hexponent : e + ((d :: second :: rest).length : Nat) - 1 -
            ((second :: rest).length : Int) = e := by
          rw [List.length_cons (a := d)]
          omega
        change Decimal.magnitudeBits (natOfDigits (d :: second :: rest))
          (e + ((d :: second :: rest).length : Nat) - 1 - ((second :: rest).length : Int)) = bits
        rw [hvalue, hexponent, hbits]
    · simp [text, fractionText, exponentText, withExponent]

end Digits

theorem exists_denotes_magnitude {bits : Nat} (hfinite : bits < Binary64.infinityBits) :
    ∃ l, Denotes l bits ∧ l.text = stored.magnitude bits := by
  unfold magnitude
  by_cases hzero : bits = 0
  · rw [if_pos hzero]
    refine ⟨⟨none, ['0'], some ['0'], none⟩, ⟨⟨.inl rfl, by simp, by simp, ?_⟩, rfl, rfl, by simp, ?_⟩, rfl⟩
    · intro ds hds
      cases hds
      simp
    · rw [hzero]
      exact Decimal.magnitudeBits_zero _
  · rw [if_neg hzero]
    have hbits := Shortest.magnitudeBits_ofBits .even (Nat.pos_of_ne_zero hzero) hfinite
    change ∃ l, Denotes l bits ∧ l.text =
      if stored.positional ((Shortest.ofBits .even bits).2 +
          (Nat.toDigits 10 (Shortest.ofBits .even bits).1).length - 1)
      then stored.aroundPoint (Nat.toDigits 10 (Shortest.ofBits .even bits).1)
        (Shortest.ofBits .even bits).2
      else withExponent (Nat.toDigits 10 (Shortest.ofBits .even bits).1)
        ((Shortest.ofBits .even bits).2 + (Nat.toDigits 10 (Shortest.ofBits .even bits).1).length - 1)
    generalize (Shortest.ofBits .even bits).1 = c at hbits ⊢
    generalize (Shortest.ofBits .even bits).2 = e at hbits ⊢
    have hc : c ≠ 0 := by
      rintro rfl
      rw [Decimal.magnitudeBits_zero] at hbits
      exact hzero hbits.symm
    have hvalue : natOfDigits (Nat.toDigits 10 c) = c := Nat.ofDigitChars_ten_toDigits
    have hhead := head?_toDigits_ne_zero hc
    have hne : Nat.toDigits 10 c ≠ [] := Nat.toDigits_ne_nil
    split
    · exact exists_denotes_aroundPoint isDigit_of_mem_toDigits hvalue hhead hne hbits hc
    · exact exists_denotes_withExponent isDigit_of_mem_toDigits hvalue hhead hne hbits

end Layout
end Calibration
