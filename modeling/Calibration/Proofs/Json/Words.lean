import Calibration.Json.Printer
import Calibration.Json.Token
import Calibration.Proofs.Number.Bits
import Calibration.Proofs.Number.Written

/-! # Words of JSON text

The numbers that are written are words: they are scanned to their end, and a word reads as the number for
which it stands.
-/
namespace Calibration

namespace Literal

theorem Proper.text_ne_nil {l : Literal} (h : l.Proper) : l.text ≠ [] := by
  simp [text, h.whole_ne_nil]

theorem Proper.head?_text {l : Literal} (h : l.Proper) :
    ∃ c, l.text.head? = some c ∧ (c = '-' ∨ c.isDigit = true) := by
  obtain ⟨d, ds, hds⟩ := List.exists_cons_of_ne_nil h.whole_ne_nil
  rcases h.sign with hs | hs
  · refine ⟨d, by simp [text, hs, hds], .inr (h.whole d (by simp [hds]))⟩
  · exact ⟨'-', by simp [text, hs], .inl rfl⟩

theorem Proper.isWordChar_of_mem_text {l : Literal} (h : l.Proper) :
    ∀ c ∈ l.text, Json.Token.isWordChar c = true := by
  have hdigit (c : Char) (hc : c.isDigit = true) : Json.Token.isWordChar c = true := by
    simp [Json.Token.isWordChar, Char.isAlphanum, hc]
  intro c hc
  simp only [text, List.mem_append] at hc
  rcases hc with hc | hc | hc | hc
  · rcases h.sign with hs | hs
    · simp [hs] at hc
    · rw [hs] at hc
      cases List.mem_singleton.1 hc
      rfl
  · exact hdigit c (h.whole c hc)
  · cases hf : l.fraction with
    | none => simp [hf, fractionText] at hc
    | some ds =>
      rw [hf] at hc
      rcases List.mem_cons.1 hc with rfl | hc
      · rfl
      · exact hdigit c (h.fraction ds hf c hc)
  · cases he : l.exponent with
    | none => simp [he, exponentText] at hc
    | some e =>
      rw [he] at hc
      rcases List.mem_cons.1 hc with rfl | hc
      · rfl
      · rcases List.mem_cons.1 hc with rfl | hc
        · split <;> rfl
        · exact hdigit c (isDigit_of_mem_toDigits c hc)

end Literal

namespace Json
open Token

structure WordFor (word : List Char) (j : Json) : Prop where
  ne_nil : word ≠ []
  chars : ∀ c ∈ word, isWordChar c = true
  reads : word? word = some j

/-- No number is one of the three names. -/
theorem WordFor.of_number? {l : Literal} (h : l.Proper) {j : Json} (hj : number? l.text = some j) :
    WordFor l.text j := by
  refine ⟨h.text_ne_nil, h.isWordChar_of_mem_text, ?_⟩
  obtain ⟨c, hc, hstart⟩ := h.head?_text
  have hname (name : List Char) (hn : name.head? = some 'n' ∨ name.head? = some 't' ∨
      name.head? = some 'f') : l.text ≠ name := by
    intro heq
    rw [heq] at hc
    rcases hn with hn | hn | hn <;>
      · cases hn.symm.trans hc
        revert hstart
        decide
  unfold word?
  rw [if_neg (hname _ (by simp)), if_neg (hname _ (by simp)), if_neg (hname _ (by simp))]
  exact hj

theorem number?_text {l : Literal} (h : l.Proper) (hjson : l.isJsonNumber = true) :
    number? l.text = if l.fraction = none ∧ l.exponent = none
      then some (ofInteger (l.sign = some '-') (Literal.natOfDigits l.whole))
      else some (.float l.toDecimal.toFloat) := by
  unfold number?
  rw [Literal.split?_text h, Option.bind_eq_bind, Option.bind_some, hjson, if_neg (by simp)]

theorem ofInteger_natAbs {n : Int} (hlow : -0x8000000000000000 ≤ n) (hhigh : n < 0x10000000000000000) :
    ofInteger (n < 0) n.natAbs = .int n := by
  unfold ofInteger
  by_cases hneg : n < 0
  · rw [if_pos (decide_eq_true hneg), if_pos (by omega)]
    congr 1
    omega
  · rw [if_neg (by simpa using hneg), if_pos (by change n.natAbs < 0x10000000000000000; omega)]
    congr 1
    omega

theorem wordFor_intText {n : Int} (hlow : -0x8000000000000000 ≤ n) (hhigh : n < 0x10000000000000000) :
    WordFor (intText n) (.int n) := by
  generalize hl : (⟨if n < 0 then some '-' else none, Nat.toDigits 10 n.natAbs, none, none⟩ :
    Literal) = l
  have hne : Nat.toDigits 10 n.natAbs ≠ [] := Nat.toDigits_ne_nil
  have hproper : l.Proper := by
    subst hl
    refine ⟨?_, hne, Literal.isDigit_of_mem_toDigits, nofun⟩
    by_cases hneg : n < 0 <;> simp [hneg]
  have hjson : l.isJsonNumber = true := by
    subst hl
    refine Layout.isJsonNumber_of ?_ ?_ (by simp)
    · by_cases hneg : n < 0 <;> simp [hneg]
    · by_cases hn : n.natAbs = 0
      · exact .inl (by rw [hn, Nat.toDigits_zero])
      · exact .inr ⟨hne, head?_toDigits_ne_zero hn⟩
  have htext : l.text = intText n := by
    subst hl
    by_cases hneg : n < 0 <;>
      simp [Literal.text, Literal.fractionText, Literal.exponentText, intText, hneg]
  have hsign : decide (l.sign = some '-') = decide (n < 0) := by
    subst hl
    by_cases hneg : n < 0 <;> simp [hneg]
  have hwhole : Literal.natOfDigits l.whole = n.natAbs := by
    subst hl
    exact Nat.ofDigitChars_ten_toDigits
  rw [← htext]
  refine .of_number? hproper ?_
  rw [number?_text hproper hjson, if_pos (by subst hl; exact ⟨rfl, rfl⟩), hsign, hwhole,
    ofInteger_natAbs hlow hhigh]

theorem wordFor_floatText {x : Float} (hx : x.isFinite = true) : WordFor (floatText x) (.float x) := by
  obtain ⟨l, hl, htext⟩ := Layout.exists_denotes_magnitude ((Binary64.isFinite_iff x).1 hx)
  generalize hsign : (if Binary64.isNegative x then some '-' else none) = sign
  have hsign' : sign = none ∨ sign = some '-' := by
    rw [← hsign]
    cases Binary64.isNegative x <;> simp
  have hproper : ({ l with sign := sign } : Literal).Proper :=
    ⟨hsign', hl.proper.whole_ne_nil, hl.proper.whole, hl.proper.fraction⟩
  have hwritten : ({ l with sign := sign } : Literal).text = floatText x := by
    have hl' := hl.sign
    unfold floatText Layout.finite
    rw [if_pos hx, ← htext, ← hsign]
    cases Binary64.isNegative x <;> simp [Literal.text, hl']
  have hjson : ({ l with sign := sign } : Literal).isJsonNumber = true := by
    have hj := hl.json
    unfold Literal.isJsonNumber at hj ⊢
    rw [hl.sign] at hj
    rcases hsign' with h | h <;> simpa [h] using hj
  have hfloat : ({ l with sign := sign } : Literal).toDecimal.toFloat = x := by
    have hnegative : decide (sign = some '-') = Binary64.isNegative x := by
      rw [← hsign]
      cases Binary64.isNegative x <;> rfl
    change Binary64.ofMagnitude (decide (sign = some '-'))
      (Decimal.magnitudeBits l.toDecimal.coefficient l.toDecimal.exponent) = x
    rw [hnegative, hl.bits, Binary64.ofMagnitude_magnitudeBits]
  rw [← hwritten]
  refine .of_number? hproper ?_
  rw [number?_text hproper hjson, if_neg hl.not_integer, hfloat]

end Json
end Calibration
