import Calibration.Json.Token

/-! # Quoted text is read as it was written

Escaping leaves no quote and no backslash open, so the closing quote is found behind exactly the text that
was written, and there every escape is undone.
-/
namespace Calibration.Json

namespace Quoted

def isCoded (c : Char) : Bool :=
  decide (c.toNat < 0x20) && !(['\x08', '\x0c', '\n', '\r', '\t'].contains c)

inductive Escaped (c : Char) : List Char → Prop
  | short {x : Char} (hx : x ≠ 'u') (hc : unescape? x = some c) (hcoded : isCoded c = false) :
    Escaped c ['\\', x]
  | coded (hc : c.toNat < 0x20) (hcoded : isCoded c = true) :
    Escaped c ['\\', 'u', '0', '0', Nat.digitChar (c.toNat / 16), Nat.digitChar (c.toNat % 16)]
  | plain (hquote : c ≠ '"') (hback : c ≠ '\\') (hc : 0x20 ≤ c.toNat) (hcoded : isCoded c = false) :
    Escaped c [c]

theorem escaped_escape (c : Char) : Escaped c (escape c) := by
  have hshort {x y : Char} (h : c = x) (hy : y ≠ 'u') (hx : unescape? y = some x)
      (hcoded : isCoded x = false) : Escaped c ['\\', y] := by
    subst h
    exact .short hy hx hcoded
  unfold escape
  split
  · next h => exact hshort h (by decide) rfl (by decide)
  split
  · next h => exact hshort h (by decide) rfl (by decide)
  split
  · next h => exact hshort h (by decide) rfl (by decide)
  split
  · next h => exact hshort h (by decide) rfl (by decide)
  split
  · next h => exact hshort h (by decide) rfl (by decide)
  split
  · next h => exact hshort h (by decide) rfl (by decide)
  split
  · next h => exact hshort h (by decide) rfl (by decide)
  next hquote hback hb hf hn hr ht =>
    split
    · next h => exact .coded h (by simp [isCoded, h, hb, hf, hn, hr, ht])
    · next h => exact .plain hquote hback (by omega) (by simp [isCoded, h])

def partOf (c : Char) : Part := if isCoded c then .unit c.toNat else .char c

theorem hexValue?_digitChar {n : Nat} (h : n < 16) : hexValue? (Nat.digitChar n) = some n := by
  have hall : ∀ m, m < 16 → hexValue? (Nat.digitChar m) = some m := by decide
  exact hall n h

theorem code?_digits {n : Nat} (h : n < 0x20) :
    code? '0' '0' (Nat.digitChar (n / 16)) (Nat.digitChar (n % 16)) = some n := by
  have hzero : hexValue? '0' = some 0 := by decide
  have hvalue : 0 * 16 + 0 + (n / 16 * 16 + n % 16) = n := by omega
  unfold code?
  rw [hzero, hexValue?_digitChar (by omega), hexValue?_digitChar (by omega)]
  simp only [Option.bind_eq_bind, Option.bind_some, Option.pure_def]
  congr 1
  omega

theorem parts?_escape (c : Char) (rest : List Char) :
    parts? (escape c ++ rest) = (parts? rest).map (partOf c :: ·) := by
  have hescaped := escaped_escape c
  generalize escape c = word at hescaped
  cases hescaped with
  | @short x hx hc hcoded =>
    rw [partOf, hcoded, if_neg (by simp)]
    change parts? ('\\' :: x :: rest) = _
    rw [parts?.eq_3 _ _ (by rintro a b c d rest rfl; exact absurd rfl hx), hc]
    cases parts? rest <;> rfl
  | coded hc hcoded =>
    rw [partOf, if_pos hcoded]
    change parts? ('\\' :: 'u' :: '0' :: '0' :: _ :: _ :: rest) = _
    rw [parts?, code?_digits hc]
    cases parts? rest <;> rfl
  | plain hquote hback hc hcoded =>
    rw [partOf, hcoded, if_neg (by simp)]
    change parts? (c :: rest) = _
    rw [parts?.eq_4 _ _ (by simp [hback]) (by simp [hback]), if_neg (by simp [hback]; omega)]

theorem parts?_content (cs : List Char) : parts? (cs.flatMap escape) = some (cs.map partOf) := by
  induction cs with
  | nil => rfl
  | cons c cs ih => rw [List.flatMap_cons, parts?_escape, ih, List.map_cons, Option.map_some]

/-- What is written has no halves of pairs in it. -/
theorem join?_parts (cs : List Char) : join? none (cs.map partOf) = some cs := by
  induction cs with
  | nil => rfl
  | cons c cs ih =>
    rw [List.map_cons, partOf]
    by_cases hc : isCoded c = true
    · have hlt : c.toNat < 0x20 := by
        unfold isCoded at hc
        simp only [Bool.and_eq_true, decide_eq_true_eq] at hc
        exact hc.1
      have hhigh : isHigh c.toNat = false := by
        unfold isHigh
        simp only [decide_eq_false_iff_not]
        omega
      have hlow : isLow c.toNat = false := by
        unfold isLow
        simp only [decide_eq_false_iff_not]
        omega
      rw [if_pos hc, join?, hhigh, hlow, ih]
      simp [Char.ofNat_toNat]
    · rw [if_neg hc, join?, ih]
      rfl

theorem read?_content (s : String) : read? (content (some s)) = some (some s) := by
  unfold read? content
  rw [parts?_content, Option.map_some, join?_parts, Option.map_some, String.ofList_toList]

end Quoted

namespace Token
open Quoted

theorem scan?_cons {mode next : Mode} {c : Char} {tokens : List Token}
    (h : step? mode c = some (tokens, next)) (rest : List Char) :
    scan? mode (c :: rest) = (scan? next rest).map (tokens ++ ·) := by
  rw [scan?, h]
  change (scan? next rest).bind (fun more => some (tokens ++ more)) = _
  cases scan? next rest <;> rfl

theorem scan?_cons_silent {mode next : Mode} {c : Char} (h : step? mode c = some ([], next))
    (rest : List Char) : scan? mode (c :: rest) = scan? next rest := by
  rw [scan?_cons h]
  cases scan? next rest <;> rfl

theorem scan?_backslash (x : Char) (raw rest : List Char) :
    scan? (.quoted raw false) ('\\' :: x :: rest) =
      scan? (.quoted (x :: '\\' :: raw) false) rest := by
  have hopen : step? (.quoted raw false) '\\' = some ([], .quoted ('\\' :: raw) true) := rfl
  rw [scan?_cons_silent hopen, scan?_cons_silent rfl]

theorem scan?_plain {c : Char} (hquote : c ≠ '"') (hback : c ≠ '\\') (raw rest : List Char) :
    scan? (.quoted raw false) (c :: rest) = scan? (.quoted (c :: raw) false) rest := by
  refine scan?_cons_silent ?_ rest
  simp [step?, hquote, hback]

/-- An escaped character leaves the scan inside the quotes. -/
theorem scan?_escape (c : Char) (raw rest : List Char) :
    scan? (.quoted raw false) (escape c ++ rest) =
      scan? (.quoted ((escape c).reverse ++ raw) false) rest := by
  have hescaped := escaped_escape c
  generalize escape c = word at hescaped
  cases hescaped with
  | short => exact scan?_backslash _ raw rest
  | coded hc =>
    have hdigit (n : Nat) (hn : n < 16) : Nat.digitChar n ≠ '"' ∧ Nat.digitChar n ≠ '\\' := by
      have hall : ∀ m, m < 16 → Nat.digitChar m ≠ '"' ∧ Nat.digitChar m ≠ '\\' := by decide
      exact hall n hn
    have hhigh := hdigit (c.toNat / 16) (by omega)
    have hlow := hdigit (c.toNat % 16) (by omega)
    change scan? (.quoted raw false) ('\\' :: 'u' :: '0' :: '0' :: _ :: _ :: rest) = _
    rw [scan?_backslash, scan?_plain (by decide) (by decide), scan?_plain (by decide) (by decide),
      scan?_plain hhigh.1 hhigh.2, scan?_plain hlow.1 hlow.2]
    rfl
  | plain hquote hback => exact scan?_plain hquote hback raw rest

theorem scan?_content (cs raw rest : List Char) :
    scan? (.quoted raw false) (cs.flatMap escape ++ rest) =
      scan? (.quoted ((cs.flatMap escape).reverse ++ raw) false) rest := by
  induction cs generalizing raw with
  | nil => rfl
  | cons c cs ih =>
    rw [List.flatMap_cons, List.append_assoc, scan?_escape, ih, List.reverse_append,
      List.append_assoc]

theorem scan?_write (s : String) (rest : List Char) :
    scan? .between (write (some s) rest) = (scan? .between rest).map (.str (some s) :: ·) := by
  have hopen : step? .between '"' = some ([], .quoted [] false) := rfl
  have hclose : step? (.quoted (content (some s)).reverse false) '"' =
      some ([.str (some s)], .between) := by
    rw [step?, if_pos rfl, List.reverse_reverse, read?_content]
    rfl
  rw [write, scan?_cons_silent hopen, content, scan?_content, List.append_nil]
  exact scan?_cons hclose rest

end Token
end Calibration.Json
