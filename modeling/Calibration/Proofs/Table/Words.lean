import Calibration.Proofs.Text.Runs
import Calibration.Table.Grammar

/-! # Words and blanks

A name is a word, and so is a number; both end at whitespace or with the line. Only blanks stand between
them. Every reading of a line is told here from what was written.
-/
namespace Calibration.Table
open Text

structure IsRun (p : Char → Bool) (xs : List Char) : Prop where
  ne_nil : xs ≠ []
  all : ∀ c ∈ xs, p c = true

theorem IsRun.of_all {p : Char → Bool} {xs : List Char} (hne : xs ≠ []) (h : xs.all p = true) :
    IsRun p xs := ⟨hne, List.all_eq_true.1 h⟩

theorem isRun_toDigits (n : Nat) : IsRun Char.isDigit (Nat.toDigits 10 n) :=
  ⟨Nat.toDigits_ne_nil, fun _ hc => Nat.isDigit_of_mem_toDigits (by decide) (by decide) hc⟩

abbrev IsWord (xs : List Char) : Prop := IsRun (fun c => !isWhitespace c) xs

abbrev EndsWord (cs : List Char) : Prop := Stops (fun c => !isWhitespace c) cs

variable {p q : Char → Bool} {cs xs blanks word name rest : List Char} {x : Float}

theorem IsRun.stops (h : IsRun p xs) (hpq : ∀ c, p c = true → q c = false) (rest : List Char) :
    Stops q (xs ++ rest) := by
  cases xs with
  | nil => exact absurd rfl h.ne_nil
  | cons c xs => exact stops_cons (hpq c (h.all c List.mem_cons_self)) _

theorem run?_append (hxs : IsRun p xs) (hrest : Stops p rest) :
    run? p (xs ++ rest) = some (xs, rest) := by
  rw [run?, takeWhile_append hxs.all hrest, dropWhile_append hxs.all hrest,
    if_neg (by simpa using hxs.ne_nil)]

/-- A run is as long as it can be. -/
theorem run?_eq_some_iff :
    run? p cs = some (xs, rest) ↔ IsRun p xs ∧ Stops p rest ∧ cs = xs ++ rest := by
  constructor
  · intro h
    unfold run? at h
    split at h
    · cases h
    · next hne =>
      cases h
      exact ⟨⟨by simpa using hne, fun c hc => List.mem_takeWhile_imp hc⟩, stops_dropWhile p cs,
        List.takeWhile_append_dropWhile.symm⟩
  · rintro ⟨hxs, hrest, rfl⟩
    exact run?_append hxs hrest

/-- Where a run ends is told by the text. -/
theorem IsRun.append_inj {xs' rest' : List Char} (hxs : IsRun p xs) (hxs' : IsRun p xs')
    (hrest : Stops p rest) (hrest' : Stops p rest') (h : xs ++ rest = xs' ++ rest') :
    xs = xs' ∧ rest = rest' := by
  have hread := run?_append hxs hrest
  rw [h, run?_append hxs' hrest'] at hread
  cases hread
  exact ⟨rfl, rfl⟩

/-! A word is no blank, and blanks are no part of a word. -/

theorem skipBlanks_eq_nil_iff : skipBlanks cs = [] ↔ ∀ c ∈ cs, isBlank c = true :=
  List.dropWhile_eq_nil_iff

theorem isBlank_eq_false_of_word {c : Char} (h : (!isWhitespace c) = true) : isBlank c = false := by
  cases hblank : isBlank c with
  | false => rfl
  | true => simp [isWhitespace_of_isBlank hblank] at h

theorem not_word_of_isBlank {c : Char} (h : isBlank c = true) : (!isWhitespace c) = false := by
  simp [isWhitespace_of_isBlank h]

theorem isWhitespace_of_isNumberChar {c : Char} (h : isNumberChar c = true) : isWhitespace c = false := by
  cases hdigit : c.isDigit with
  | false =>
    simp only [isNumberChar, hdigit, Bool.false_or, Bool.or_eq_true, decide_eq_true_eq] at h
    rcases h with (((rfl | rfl) | rfl) | rfl) | rfl <;> decide
  | true =>
    have hrange : 48 ≤ c.toNat ∧ c.toNat ≤ 57 := by
      simpa [Char.isDigit, UInt32.le_iff_toNat_le] using hdigit
    simp only [isWhitespace, whitespaceRanges, List.any_cons, List.any_nil, Bool.or_false,
      Bool.or_eq_false_iff, decide_eq_false_iff_not]
    omega

theorem isNumberChar_of_isWhitespace {c : Char} (h : isWhitespace c = true) : isNumberChar c = false := by
  cases hnumber : isNumberChar c with
  | false => rfl
  | true => exact absurd h (by simp [isWhitespace_of_isNumberChar hnumber])

theorem EndsWord.stops_isNumberChar (h : EndsWord cs) : Stops isNumberChar cs :=
  h.imp fun _ hc => isNumberChar_of_isWhitespace (by simpa using hc)

theorem isWhitespace_of_isDigit {c : Char} (h : c.isDigit = true) : isWhitespace c = false :=
  isWhitespace_of_isNumberChar (by simp [isNumberChar, h])

theorem skipBlanks_append (h : IsWord word) (rest : List Char) :
    skipBlanks (word ++ rest) = word ++ rest := by
  have hstops : Stops isBlank (word ++ rest) := h.stops (fun _ => isBlank_eq_false_of_word) rest
  exact @dropWhile_append isBlank [] (word ++ rest) nofun hstops

theorem afterBlanks?_append (hblanks : IsRun isBlank blanks) (hrest : Stops isBlank rest) :
    afterBlanks? (blanks ++ rest) = some rest := by
  rw [afterBlanks?, run?_append hblanks hrest]
  rfl

def float? (cs : List Char) : Option Float := do
  let literal ← Literal.split? cs
  if literal.isTableNumber then some literal.toDecimal.toFloat else none

theorem finiteNumber?_eq_some_iff : finiteNumber? word = some x ↔
    (∀ c ∈ word, isNumberChar c = true) ∧ float? word = some x ∧ x.isFinite = true := by
  unfold finiteNumber? float?
  rw [← List.all_eq_true]
  cases word.all isNumberChar with
  | false => simp
  | true =>
    cases Literal.split? word with
    | none => simp
    | some literal =>
      cases hnumber : literal.isTableNumber with
      | false => simp [hnumber]
      | true =>
        simp only [hnumber, Option.bind_eq_bind, Option.bind_some, if_true, Bool.true_and]
        grind

structure ReadsAs (word : List Char) (x : Float) : Prop where
  reads : float? word = some x
  finite : x.isFinite = true

theorem number?_append (hblanks : IsRun isBlank blanks) (hword : IsWord word)
    (hx : finiteNumber? word = some x) (hrest : EndsWord rest) :
    number? (blanks ++ (word ++ rest)) = some (x, rest) := by
  have hafter : afterBlanks? (blanks ++ (word ++ rest)) = some (word ++ rest) :=
    afterBlanks?_append hblanks (hword.stops (fun _ => isBlank_eq_false_of_word) rest)
  have hread : word? (word ++ rest) = some (word, rest) := run?_append hword hrest
  simp [number?, hafter, hread, hx]

@[ext]
structure Field where
  gap : List Char
  token : List Char
  gap_isRun : IsRun isBlank gap
  token_isRun : IsRun isNumberChar token

namespace Field
variable (f : Field)

def chars : List Char := f.gap ++ f.token

theorem token_isWord : IsWord f.token where
  ne_nil := f.token_isRun.ne_nil
  all c hc := by simp [isWhitespace_of_isNumberChar (f.token_isRun.all c hc)]

theorem endsWord_append (rest : List Char) : EndsWord (f.chars ++ rest) := by
  rw [chars, List.append_assoc]
  exact f.gap_isRun.stops (fun _ => not_word_of_isBlank) _

theorem stops_token (rest : List Char) : Stops isBlank (f.token ++ rest) :=
  f.token_isWord.stops (fun _ => isBlank_eq_false_of_word) rest

end Field

theorem Field.append_inj {f f' : Field} {rest' : List Char} (hrest : Stops isNumberChar rest)
    (hrest' : Stops isNumberChar rest') (h : f.chars ++ rest = f'.chars ++ rest') :
    f = f' ∧ rest = rest' := by
  simp only [chars, List.append_assoc] at h
  obtain ⟨hgap, h⟩ := f.gap_isRun.append_inj f'.gap_isRun (f.stops_token rest) (f'.stops_token rest') h
  obtain ⟨htoken, hrest⟩ := f.token_isRun.append_inj f'.token_isRun hrest hrest' h
  exact ⟨Field.ext hgap htoken, hrest⟩

theorem afterBlanks?_eq_some_iff :
    afterBlanks? cs = some rest ↔ ∃ blanks, IsRun isBlank blanks ∧ Stops isBlank rest ∧ cs = blanks ++ rest := by
  simp only [afterBlanks?, Option.map_eq_some_iff, Prod.exists, run?_eq_some_iff]
  constructor
  · rintro ⟨blanks, _, h, rfl⟩
    exact ⟨blanks, h⟩
  · rintro ⟨blanks, h⟩
    exact ⟨blanks, rest, h, rfl⟩

theorem numberChars?_eq_some_iff {token : List Char} : numberChars? cs = some (token, rest) ↔
    ∃ f : Field, f.token = token ∧ Stops isNumberChar rest ∧ cs = f.chars ++ rest := by
  simp only [numberChars?, Option.bind_eq_bind, Option.bind_eq_some_iff, afterBlanks?_eq_some_iff,
    run?_eq_some_iff]
  constructor
  · rintro ⟨_, ⟨gap, hgap, -, rfl⟩, htoken, hrest, rfl⟩
    exact ⟨⟨gap, token, hgap, htoken⟩, rfl, hrest, (List.append_assoc _ _ _).symm⟩
  · rintro ⟨f, rfl, hrest, rfl⟩
    exact ⟨_, ⟨f.gap, f.gap_isRun, f.stops_token rest, List.append_assoc _ _ _⟩, f.token_isRun, hrest, rfl⟩

theorem number?_eq_some_iff : number? cs = some (x, rest) ↔
    ∃ f : Field, ReadsAs f.token x ∧ EndsWord rest ∧ cs = f.chars ++ rest := by
  constructor
  · intro h
    obtain ⟨after, hafter, h⟩ := Option.bind_eq_some_iff.1 h
    obtain ⟨⟨word, left⟩, hword, h⟩ := Option.bind_eq_some_iff.1 h
    obtain ⟨y, hy, h⟩ := Option.bind_eq_some_iff.1 h
    cases h
    obtain ⟨gap, hgap, -, rfl⟩ := afterBlanks?_eq_some_iff.1 hafter
    obtain ⟨hrun, hrest, rfl⟩ := run?_eq_some_iff.1 hword
    obtain ⟨hall, hreads, hfinite⟩ := finiteNumber?_eq_some_iff.1 hy
    exact ⟨⟨gap, word, hgap, hrun.ne_nil, hall⟩, ⟨hreads, hfinite⟩, hrest,
      (List.append_assoc _ _ _).symm⟩
  · rintro ⟨f, hx, hrest, rfl⟩
    have hnumber : finiteNumber? f.token = some x :=
      finiteNumber?_eq_some_iff.2 ⟨f.token_isRun.all, hx.reads, hx.finite⟩
    rw [Field.chars, List.append_assoc]
    exact number?_append f.gap_isRun f.token_isWord hnumber hrest

theorem number?_field_iff {f : Field} {left : List Char} (hrest : EndsWord rest) :
    number? (f.chars ++ rest) = some (x, left) ↔ ReadsAs f.token x ∧ left = rest := by
  rw [number?_eq_some_iff]
  constructor
  · rintro ⟨f', hx, hleft, h⟩
    obtain ⟨rfl, rfl⟩ := Field.append_inj hrest.stops_isNumberChar hleft.stops_isNumberChar h
    exact ⟨hx, rfl⟩
  · rintro ⟨hx, rfl⟩
    exact ⟨f, hx, hrest, rfl⟩

/-! What a reader of a line has read, part after part. -/

theorem record?_eq_some_iff {r : Record} : record? cs = some ((name, r), rest) ↔ ∃ left left' left'',
    word? (skipBlanks cs) = some (name, left) ∧ number? left = some (r.threshold, left') ∧
      number? left' = some (r.min, left'') ∧ number? left'' = some (r.max, rest) := by
  constructor
  · intro h
    obtain ⟨⟨_, left⟩, hname, h⟩ := Option.bind_eq_some_iff.1 h
    obtain ⟨⟨_, left'⟩, hthreshold, h⟩ := Option.bind_eq_some_iff.1 h
    obtain ⟨⟨_, left''⟩, hmin, h⟩ := Option.bind_eq_some_iff.1 h
    obtain ⟨⟨_, _⟩, hmax, h⟩ := Option.bind_eq_some_iff.1 h
    cases h
    exact ⟨left, left', left'', hname, hthreshold, hmin, hmax⟩
  · rintro ⟨left, left', left'', hname, hthreshold, hmin, hmax⟩
    simp [record?, hname, hthreshold, hmin, hmax]

theorem channelScales?_eq_some_iff {scales : List Float} :
    channelScales? cs = some ((name, scales), rest) ↔ ∃ left after n left',
      word? (skipBlanks cs) = some (name, left) ∧ afterBlanks? left = some after ∧
        count? after = some (n, left') ∧ numbers? n left' = some (scales, rest) := by
  constructor
  · intro h
    obtain ⟨⟨_, left⟩, hname, h⟩ := Option.bind_eq_some_iff.1 h
    obtain ⟨after, hafter, h⟩ := Option.bind_eq_some_iff.1 h
    obtain ⟨⟨n, left'⟩, hcount, h⟩ := Option.bind_eq_some_iff.1 h
    obtain ⟨⟨_, _⟩, hscales, h⟩ := Option.bind_eq_some_iff.1 h
    cases h
    exact ⟨left, after, n, left', hname, hafter, hcount, hscales⟩
  · rintro ⟨left, after, n, left', hname, hafter, hcount, hscales⟩
    simp [channelScales?, hname, hafter, hcount, hscales]

end Calibration.Table
