import Calibration.Proofs.Table.Feeding
import Calibration.Proofs.Table.Shapes
import Calibration.Proofs.Text.Lines
import Mathlib.Data.List.Basic

/-! # What a hint says of its line

A line is refused by a grammar, and the hint that is shown with it counts words, of which the grammar knows
nothing. They agree all the same: four words are a record if the line starts with the first, only blanks part them
and the last three are made of number characters.
-/
namespace Calibration.Table
open Text

/-- What stands on a line between whitespace, from the left to the right. -/
inductive WordsOf : List Char → List (List Char) → Prop
  | blank {cs : List Char} (h : ∀ c ∈ cs, isWhitespace c = true) : WordsOf cs []
  | word {gap word rest : List Char} {ws : List (List Char)} (hgap : ∀ c ∈ gap, isWhitespace c = true)
    (hword : IsWord word) (hend : EndsWord rest) (hrest : WordsOf rest ws) :
    WordsOf (gap ++ (word ++ rest)) (word :: ws)

def StartsWord (cs : List Char) : Prop := ∃ c, cs.head? = some c ∧ isWhitespace c = false

variable {line cs gap word rest : List Char} {ws : List (List Char)}

section Words

theorem words_append_of_whitespace (hgap : ∀ c ∈ gap, isWhitespace c = true) (cs : List Char) :
    words (gap ++ cs) = words cs := by
  induction gap with
  | nil => rfl
  | cons c gap ih =>
    obtain ⟨hc, hgap⟩ := List.forall_mem_cons.1 hgap
    rw [List.cons_append, words, pieces, if_pos hc]
    exact ih hgap

theorem words_of_whitespace (h : ∀ c ∈ cs, isWhitespace c = true) : words cs = [] := by
  have hnil := words_append_of_whitespace h []
  rwa [List.append_nil] at hnil

theorem words_append_word (hword : IsWord word) (hend : EndsWord rest) :
    words (word ++ rest) = word :: words rest := by
  have hnot (c : Char) (hc : c ∈ word) : isWhitespace c = false := by simpa using hword.all c hc
  have hword := hword.ne_nil
  cases rest with
  | nil =>
    rw [List.append_nil, words, pieces_of_forall_not hnot]
    simp [hword, words, pieces]
  | cons c rest =>
    have hc : isWhitespace c = true := by simpa using hend c rfl
    have hrest : words (c :: rest) = words rest :=
      words_append_of_whitespace (List.forall_mem_singleton.2 hc) rest
    rw [hrest, words, pieces_append_cons hnot hc]
    simp [hword, words]

theorem WordsOf.words_eq (h : WordsOf cs ws) : words cs = ws := by
  induction h with
  | blank h => exact words_of_whitespace h
  | word hgap hword hend _ ih => rw [words_append_of_whitespace hgap, words_append_word hword hend, ih]

theorem WordsOf.cons_of_whitespace {c : Char} (hc : isWhitespace c = true) (h : WordsOf cs ws) :
    WordsOf (c :: cs) ws := by
  cases h with
  | blank h => exact .blank (List.forall_mem_cons.2 ⟨hc, h⟩)
  | word hgap hword hend hrest =>
    exact .word (List.forall_mem_cons.2 ⟨hc, hgap⟩) hword hend hrest

/-- A character that belongs to a word begins one of its own, unless a word comes next. -/
theorem WordsOf.exists_cons {c : Char} (hc : isWhitespace c = false) (h : WordsOf cs ws) :
    ∃ ws', WordsOf (c :: cs) ws' := by
  have hsingle : IsWord [c] := IsRun.of_all (List.cons_ne_nil _ _) (by simp [hc])
  have halone (hcs : EndsWord cs) : ∃ ws', WordsOf (c :: cs) ws' :=
    ⟨_, @WordsOf.word [] _ _ _ nofun hsingle hcs h⟩
  cases h with
  | blank h => exact halone fun d hd => by simp [h d (List.mem_of_head? hd)]
  | @word gap word rest ws hgap hword hend hrest =>
    cases gap with
    | nil =>
      have hlonger : IsWord (c :: word) :=
        ⟨List.cons_ne_nil _ _, List.forall_mem_cons.2 ⟨by simp [hc], hword.all⟩⟩
      exact ⟨_, @WordsOf.word [] _ _ _ nofun hlonger hend hrest⟩
    | cons d gap => exact halone (stops_cons (by simp [hgap d List.mem_cons_self]) _)

theorem exists_wordsOf (cs : List Char) : ∃ ws, WordsOf cs ws := by
  induction cs with
  | nil => exact ⟨[], .blank nofun⟩
  | cons c cs ih =>
    obtain ⟨ws, h⟩ := ih
    cases hc : isWhitespace c with
    | true => exact ⟨ws, h.cons_of_whitespace hc⟩
    | false => exact h.exists_cons hc

theorem words_eq_iff : words cs = ws ↔ WordsOf cs ws := by
  constructor
  · rintro rfl
    obtain ⟨ws, h⟩ := exists_wordsOf cs
    rwa [h.words_eq]
  · exact WordsOf.words_eq

theorem words_eq_nil_iff : words cs = [] ↔ ∀ c ∈ cs, isWhitespace c = true := by
  constructor
  · intro h
    cases words_eq_iff.1 h with
    | blank h => exact h
  · exact words_of_whitespace

end Words

namespace Hint
variable {hint : Hint} {n : Nat}

section Texts

def remark : String := "; per-channel scales belong after a `#weight_scale` marker"

def tail (n : Nat) : String := if n < 4 then "" else remark

theorem tail_of_lt (h : n < 4) : tail n = "" := if_pos h

theorem tail_of_not_lt (h : ¬n < 4) : tail n = remark := if_neg h

theorem text_fieldCount (n : Nat) :
    (fieldCount n).text = "expected 4 fields, found " ++ (n.repr ++ tail n) := by
  by_cases h : n < 4
  · have htext : (fieldCount n).text = "expected 4 fields, found " ++ n.repr := if_pos h
    rw [htext, tail_of_lt h, String.append_empty]
  · have htext : (fieldCount n).text = "expected 4 fields, found " ++ n.repr ++
      "; per-channel scales belong after a " ++ "`#weight_scale` marker" := if_neg h
    rw [htext, tail_of_not_lt h, String.append_assoc, String.append_assoc]
    rfl

theorem stops_tail (n : Nat) : Stops Char.isDigit (tail n).toList := by
  by_cases h : n < 4
  · rw [tail_of_lt h]
    exact nofun
  · rw [tail_of_not_lt h]
    exact stops_cons (by decide) _

/-- A number ends where its digits do. -/
theorem eq_of_repr_append {m : Nat} {s s' : String} (hs : Stops Char.isDigit s.toList)
    (hs' : Stops Char.isDigit s'.toList) (h : m.repr ++ s = n.repr ++ s') : m = n ∧ s = s' := by
  have hchars := congrArg String.toList h
  simp only [String.toList_append, Nat.toList_repr] at hchars
  obtain ⟨hdigits, htail⟩ := (isRun_toDigits m).append_inj (isRun_toDigits n) hs hs' hchars
  refine ⟨?_, String.toList_injective htail⟩
  rw [← @Nat.ofDigitChars_ten_toDigits m, hdigits, Nat.ofDigitChars_ten_toDigits]

theorem text_eq_found_iff {s : String} (hs : Stops Char.isDigit s.toList) :
    hint.text = "expected 4 fields, found " ++ (n.repr ++ s) ↔ hint = .fieldCount n ∧ tail n = s := by
  constructor
  · intro h
    have hhead : hint.text.toList.head? = some 'e' := by
      rw [h, String.toList_append]
      rfl
    cases hint with
    | fieldCount m =>
      rw [text_fieldCount, String.append_right_inj] at h
      obtain ⟨rfl, htail⟩ := eq_of_repr_append (stops_tail m) hs h
      exact ⟨rfl, htail⟩
    | blankLine | leadingBlanks | numberCharacters => exact absurd hhead (by decide +kernel)
  · rintro ⟨rfl, rfl⟩
    exact text_fieldCount n

theorem text_eq_short_iff :
    hint.text = s!"expected 4 fields, found {n}" ↔ hint = .fieldCount n ∧ n < 4 := by
  have htext : s!"expected 4 fields, found {n}" = "expected 4 fields, found " ++ (n.repr ++ "") := by
    rw [String.append_empty]
    rfl
  have htail : tail n = "" ↔ n < 4 := by
    by_cases h : n < 4
    · simp [tail_of_lt h, h]
    · simp [tail_of_not_lt h, h, remark]
  have hstops : Stops Char.isDigit "".toList := fun _ hc => nomatch hc
  rw [htext, text_eq_found_iff hstops, htail]

theorem text_eq_long_iff : hint.text =
      s!"expected 4 fields, found {n}; per-channel scales belong after a `#weight_scale` marker" ↔
    hint = .fieldCount n ∧ 4 ≤ n := by
  have htext : s!"expected 4 fields, found {n}; per-channel scales belong after a `#weight_scale` marker" =
      "expected 4 fields, found " ++ (n.repr ++ remark) := String.append_assoc
  have htail : tail n = remark ↔ 4 ≤ n := by
    by_cases h : n < 4
    · simp [tail_of_lt h, h, remark]
    · simp [tail_of_not_lt h, Nat.not_lt.1 h]
  rw [htext, text_eq_found_iff (stops_cons (by decide) _), htail]

/-- The text tells the hint. -/
theorem text_injective : Function.Injective text := by
  intro hint hint' h
  cases hint' with
  | fieldCount n =>
    rw [text_fieldCount] at h
    exact ((text_eq_found_iff (stops_tail n)).1 h).1
  | _ =>
    cases hint with
    | fieldCount n =>
      rw [text_fieldCount] at h
      exact ((text_eq_found_iff (stops_tail n)).1 h.symm).1.symm
    | _ => first | rfl | exact absurd h (by decide)

end Texts

section OfLine

theorem startsWord_iff :
    StartsWord line ↔ (words line).length ≠ 0 ∧ line.head?.any isWhitespace = false := by
  rw [ne_eq, List.length_eq_zero_iff, words_eq_nil_iff]
  cases line with
  | nil => simp [StartsWord]
  | cons c line =>
    simp only [StartsWord, List.head?_cons, Option.some.injEq, exists_eq_left', Option.any_some]
    constructor
    · intro hc
      refine ⟨fun h => ?_, hc⟩
      simp [h c List.mem_cons_self] at hc
    · exact And.right

theorem ofLine_eq_blankLine_iff : ofLine line = .blankLine ↔ ∀ c ∈ line, isWhitespace c = true := by
  rw [← words_eq_nil_iff, ← List.length_eq_zero_iff]
  unfold ofLine
  grind

theorem ofLine_eq_leadingBlanks_iff : ofLine line = .leadingBlanks ↔
    (∃ c ∈ line, isWhitespace c = false) ∧ ∃ c, line.head? = some c ∧ isWhitespace c = true := by
  have hblank : (words line).length = 0 ↔ ¬∃ c ∈ line, isWhitespace c = false := by
    rw [List.length_eq_zero_iff, words_eq_nil_iff]
    simp
  have hhead : line.head?.any isWhitespace = true ↔ ∃ c, line.head? = some c ∧ isWhitespace c = true := by
    cases line.head? <;> simp
  rw [← hhead, ← not_not (a := ∃ c ∈ line, isWhitespace c = false), ← hblank]
  unfold ofLine
  grind

theorem ofLine_eq_numberCharacters_iff (h : WordsOf line ws) :
    ofLine line = .numberCharacters ↔ StartsWord line ∧ ws.length = 4 := by
  rw [startsWord_iff, ← h.words_eq]
  unfold ofLine
  grind

theorem ofLine_eq_fieldCount_iff (h : WordsOf line ws) :
    ofLine line = .fieldCount n ↔ StartsWord line ∧ ws.length = n ∧ n ≠ 4 := by
  rw [startsWord_iff, ← h.words_eq]
  unfold ofLine
  grind

end OfLine
end Hint

/-! ## Fields of number characters -/

theorem exists_field {token : List Char} (h : WordsOf cs (token :: ws)) (hends : EndsWord cs)
    (hblank : ∀ c ∈ cs, isWhitespace c = true → isBlank c = true)
    (htoken : ∀ c ∈ token, isNumberChar c = true) :
    ∃ (f : Field) (rest : List Char), f.token = token ∧ cs = f.chars ++ rest ∧ EndsWord rest ∧
      WordsOf rest ws := by
  cases h with
  | @word gap _ rest _ hgap hword hend hrest =>
    have hne : gap ≠ [] := by
      rintro rfl
      obtain ⟨c, token, rfl⟩ := List.exists_cons_of_ne_nil hword.ne_nil
      exact Bool.false_ne_true ((hends c rfl).symm.trans (hword.all c List.mem_cons_self))
    have hblanks : IsRun isBlank gap :=
      ⟨hne, fun c hc => hblank c (List.mem_append_left _ hc) (hgap c hc)⟩
    exact ⟨⟨gap, token, hblanks, ⟨hword.ne_nil, htoken⟩⟩, rest, rfl, (List.append_assoc _ _ _).symm, hend, hrest⟩

/-- Four words make a record if only blanks part them and the last three are of number characters. -/
theorem exists_layout_of_words {name threshold min max : List Char}
    (h : WordsOf line [name, threshold, min, max]) (hstart : StartsWord line)
    (hblank : ∀ c ∈ line, isWhitespace c = true → isBlank c = true)
    (hthreshold : ∀ c ∈ threshold, isNumberChar c = true) (hmin : ∀ c ∈ min, isNumberChar c = true)
    (hmax : ∀ c ∈ max, isNumberChar c = true) : ∃ l : Layout, l.line = line := by
  cases h with
  | @word gap _ rest _ hgap hword hend hrest =>
    have hnil : gap = [] := by
      cases gap with
      | nil => rfl
      | cons c gap =>
        obtain ⟨d, hd, hd'⟩ := hstart
        cases hd
        simp [hgap c List.mem_cons_self] at hd'
    subst hnil
    rw [List.nil_append] at hblank ⊢
    replace hblank := (List.forall_mem_append.1 hblank).2
    obtain ⟨f, rest, rfl, rfl, hend, hrest⟩ := exists_field hrest hend hblank hthreshold
    replace hblank := (List.forall_mem_append.1 hblank).2
    obtain ⟨f', rest, rfl, rfl, hend, hrest⟩ := exists_field hrest hend hblank hmin
    replace hblank := (List.forall_mem_append.1 hblank).2
    obtain ⟨f'', behind, rfl, rfl, hend, hrest⟩ := exists_field hrest hend hblank hmax
    replace hblank := (List.forall_mem_append.1 hblank).2
    cases hrest with
    | blank hbehind =>
      exact ⟨⟨name, f, f', f'', behind, hword, fun c hc => hblank c hc (hbehind c hc)⟩, rfl⟩

theorem exists_misplaced (h : WordsOf line ws) (hstart : StartsWord line) (hlength : ws.length = 4)
    (hshape : shape? line = none) : ∃ name threshold min max, ws = [name, threshold, min, max] ∧
      ((∃ field ∈ [threshold, min, max], ∃ c ∈ field, isNumberChar c = false) ∨
        ∃ c ∈ line, isWhitespace c = true ∧ c ≠ ' ' ∧ c ≠ '\t') := by
  obtain ⟨name, ws, rfl⟩ := List.exists_cons_of_length_eq_add_one hlength
  obtain ⟨threshold, min, max, rfl⟩ := List.length_eq_three.1 (Nat.succ.inj hlength)
  refine ⟨name, threshold, min, max, rfl, ?_⟩
  by_contra hnone
  obtain ⟨hchars, hblank⟩ := not_or.1 hnone
  have hnumber (field : List Char) (hfield : field ∈ [threshold, min, max]) :
      ∀ c ∈ field, isNumberChar c = true := by
    intro c hc
    by_contra hnot
    exact hchars ⟨field, hfield, c, hc, by simpa using hnot⟩
  have hblanks (c : Char) (hc : c ∈ line) (hw : isWhitespace c = true) : isBlank c = true := by
    by_contra hnot
    refine hblank ⟨c, hc, hw, ?_⟩
    simpa [isBlank] using hnot
  obtain ⟨l, rfl⟩ := exists_layout_of_words h hstart hblanks (hnumber threshold (by simp))
    (hnumber min (by simp)) (hnumber max (by simp))
  rw [l.shape?_line] at hshape
  cases hshape

/-- The hint that comes with a malformed line is true of it. It calls the line blank, or speaks of blanks at its
start, exactly where that is so, and for a line that starts with a word and has not four of them it gives their
number. It speaks of number characters only where one of the three fields has another character, or where
whitespace stands on the line that is neither a space nor a tab. -/
theorem hint_explains_malformed {r next : Reader} {raw : String} {e : TableError}
    (h : r.feed raw = (next, .error e)) : ∃ line ws, ReturnDropped raw line ∧ WordsOf line ws ∧
      e = .malformed (r.line + 1) (String.ofList line) ∧
      (e.help = some Hint.blankLine.text ↔ ∀ c ∈ line, isWhitespace c = true) ∧
      (e.help = some Hint.leadingBlanks.text ↔
        (∃ c ∈ line, isWhitespace c = false) ∧ ∃ c, line.head? = some c ∧ isWhitespace c = true) ∧
      (∀ n : Nat, e.help = some s!"expected 4 fields, found {n}" ↔
        StartsWord line ∧ ws.length = n ∧ n < 4) ∧
      (∀ n : Nat, e.help = some
          s!"expected 4 fields, found {n}; per-channel scales belong after a `#weight_scale` marker" ↔
        StartsWord line ∧ ws.length = n ∧ 4 < n) ∧
      (e.help = some Hint.numberCharacters.text →
        ∃ name threshold min max, ws = [name, threshold, min, max] ∧
          ((∃ field ∈ [threshold, min, max], ∃ c ∈ field, isNumberChar c = false) ∨
            ∃ c ∈ line, isWhitespace c = true ∧ c ≠ ' ' ∧ c ≠ '\t')) := by
  have hfeeds := r.feeds raw
  rw [h] at hfeeds
  obtain ⟨-, -, -, rfl⟩ := hfeeds.of_error
  obtain ⟨-, -, hshape⟩ := Section.judge_eq_malformed_iff.1 (Reader.judge_of_error (congrArg Prod.snd h))
  have hreturn := Reader.returnDropped_content raw
  generalize Reader.content raw = line at hreturn hshape ⊢
  have hws : WordsOf line (words line) := words_eq_iff.1 rfl
  have hhelp (text : String) : (TableError.malformed (r.line + 1) (String.ofList line)).help = some text ↔
      (Hint.ofLine line).text = text := by
    simp [TableError.help]
  have hhint (hint : Hint) : (Hint.ofLine line).text = hint.text ↔ Hint.ofLine line = hint :=
    Hint.text_injective.eq_iff
  refine ⟨line, words line, hreturn, hws, rfl, ?_, ?_, fun n => ?_, fun n => ?_, fun hnumber => ?_⟩
  · rw [hhelp, hhint, Hint.ofLine_eq_blankLine_iff]
  · rw [hhelp, hhint, Hint.ofLine_eq_leadingBlanks_iff]
  · rw [hhelp, Hint.text_eq_short_iff, Hint.ofLine_eq_fieldCount_iff hws, and_assoc, and_assoc]
    exact and_congr_right fun _ => and_congr_right fun _ => by omega
  · rw [hhelp, Hint.text_eq_long_iff, Hint.ofLine_eq_fieldCount_iff hws, and_assoc, and_assoc]
    exact and_congr_right fun _ => and_congr_right fun _ => by omega
  · rw [hhelp, hhint, Hint.ofLine_eq_numberCharacters_iff hws] at hnumber
    exact exists_misplaced hws hnumber.1 hnumber.2 hshape

/-- The number of a line that has no number there is refused for its characters. -/
theorem hint_explains_malformed_inf : ∃ next e, Reader.start.feed "t1 inf -1 1\r" = (next, .error e) ∧
    e.help = some Hint.numberCharacters.text ∧ ∃ line ws, ReturnDropped "t1 inf -1 1\r" line ∧
      WordsOf line ws ∧ ∃ name threshold min max, ws = [name, threshold, min, max] ∧
        ((∃ field ∈ [threshold, min, max], ∃ c ∈ field, isNumberChar c = false) ∨
          ∃ c ∈ line, isWhitespace c = true ∧ c ≠ ' ' ∧ c ≠ '\t') := by
  have hfed : Reader.start.feed "t1 inf -1 1\r" =
    ({ Reader.start with line := 1 }, .error (.malformed 1 "t1 inf -1 1")) := rfl
  have hhelp : (TableError.malformed 1 "t1 inf -1 1").help = some Hint.numberCharacters.text := rfl
  obtain ⟨line, ws, hreturn, hws, -, -, -, -, -, hnumber⟩ := hint_explains_malformed hfed
  exact ⟨_, _, hfed, hhelp, line, ws, hreturn, hws, hnumber hhelp⟩

end Calibration.Table
