import Calibration.Proofs.Table.Verdicts
import Calibration.Proofs.Table.Words
import Mathlib.Data.List.Forall2

/-! # Lines with channel scales

A vector stands on a line as a name, a count and as many numbers, and what follows them is not looked at. The
numbers are whole words. A count is one too, as soon as numbers follow it; but nothing follows a count of
zero, and so a word that only begins with zeros is taken for one.
-/
namespace Calibration.Table
open Text

variable {cs rest : List Char}

theorem count?_eq_some_iff {n : Nat} : count? cs = some (n, rest) ↔ ∃ digits, IsRun Char.isDigit digits ∧
    Stops Char.isDigit rest ∧ Literal.natOfDigits digits = n ∧ n < UInt64.size ∧ cs = digits ++ rest := by
  constructor
  · intro h
    obtain ⟨⟨digits, left⟩, hdigits, h⟩ := Option.bind_eq_some_iff.1 h
    obtain ⟨hlt, h⟩ := Option.ite_none_right_eq_some.1 h
    cases h
    obtain ⟨hrun, hrest, rfl⟩ := run?_eq_some_iff.1 hdigits
    exact ⟨digits, hrun, hrest, rfl, hlt, rfl⟩
  · rintro ⟨digits, hrun, hrest, rfl, hlt, rfl⟩
    simp [count?, run?_append hrun hrest, hlt]

/-- Fields begin with a blank, unless there are none. -/
theorem endsWord_fields {fields : List Field} (hrest : fields = [] → EndsWord rest) :
    EndsWord (fields.flatMap Field.chars ++ rest) := by
  cases fields with
  | nil => exact hrest rfl
  | cons f fields =>
    rw [List.flatMap_cons, List.append_assoc]
    exact f.endsWord_append _

/-- The numbers stand in fields, and the last of them ends its word. -/
theorem numbers?_eq_some_iff {n : Nat} {xs : List Float} : numbers? n cs = some (xs, rest) ↔
    ∃ fields : List Field, fields.length = n ∧ List.Forall₂ (fun f x => ReadsAs f.token x) fields xs ∧
      (fields = [] ∨ EndsWord rest) ∧ cs = fields.flatMap Field.chars ++ rest := by
  constructor
  · intro h
    induction n generalizing cs xs with
    | zero =>
      cases h
      exact ⟨[], rfl, .nil, .inl rfl, rfl⟩
    | succ n ih =>
      obtain ⟨⟨x, left⟩, hx, h⟩ := Option.bind_eq_some_iff.1 h
      obtain ⟨⟨xs, _⟩, hxs, h⟩ := Option.bind_eq_some_iff.1 h
      cases h
      obtain ⟨f, hread, hleft, rfl⟩ := number?_eq_some_iff.1 hx
      obtain ⟨fields, rfl, hall, hrest, rfl⟩ := ih hxs
      refine ⟨f :: fields, rfl, .cons hread hall, .inr ?_, by simp⟩
      rcases hrest with rfl | hrest
      · exact hleft
      · exact hrest
  · rintro ⟨fields, rfl, hall, hrest, rfl⟩
    induction hall with
    | nil => rfl
    | @cons f x fields xs hread hall ih =>
      have hends : EndsWord rest := hrest.resolve_left (List.cons_ne_nil _ _)
      have hnumber : number? (f.chars ++ (fields.flatMap Field.chars ++ rest)) =
          some (x, fields.flatMap Field.chars ++ rest) :=
        (number?_field_iff (endsWord_fields fun _ => hends)).2 ⟨hread, rfl⟩
      simp [numbers?, hnumber, ih (.inr hends)]

structure VectorLine where
  lead : List Char
  name : List Char
  gap : List Char
  count : List Char
  fields : List Field
  values : List Float
  rest : List Char
  lead_isBlank : ∀ c ∈ lead, isBlank c = true
  name_isWord : IsWord name
  gap_isRun : IsRun isBlank gap
  count_isRun : IsRun Char.isDigit count
  count_eq : Literal.natOfDigits count = fields.length
  count_lt : fields.length < UInt64.size
  reads : List.Forall₂ (fun f x => ReadsAs f.token x) fields values

namespace VectorLine
variable (v : VectorLine)

def line : List Char :=
  v.lead ++ (v.name ++ (v.gap ++ (v.count ++ (v.fields.flatMap Field.chars ++ v.rest))))

/-- The last of its words ends with it. -/
def WholeWords : Prop := EndsWord v.rest

/-- Its count is zero and goes on without a break, but not with a digit. -/
def ZeroPrefix : Prop := v.fields = [] ∧ ¬EndsWord v.rest ∧ Stops Char.isDigit v.rest

end VectorLine

theorem EndsWord.stops_isDigit (h : EndsWord cs) : Stops Char.isDigit cs :=
  h.stops_isNumberChar.imp fun c hc => by
    cases hdigit : c.isDigit with
    | false => rfl
    | true => simp [isNumberChar, hdigit] at hc

theorem VectorLine.channelScales?_line {v : VectorLine} (h : v.WholeWords ∨ v.ZeroPrefix) :
    channelScales? v.line = some ((v.name, v.values), v.rest) := by
  have hdigit (c : Char) (hc : c.isDigit = true) : isBlank c = false :=
    isBlank_eq_false_of_word (by simp [isWhitespace_of_isDigit hc])
  have hskip : skipBlanks v.line = v.name ++ (v.gap ++ (v.count ++ (v.fields.flatMap Field.chars ++ v.rest))) :=
    dropWhile_append v.lead_isBlank (v.name_isWord.stops (fun _ => isBlank_eq_false_of_word) _)
  have hname : word? (skipBlanks v.line) =
      some (v.name, v.gap ++ (v.count ++ (v.fields.flatMap Field.chars ++ v.rest))) := by
    rw [hskip]
    exact run?_append v.name_isWord (v.gap_isRun.stops (fun _ => not_word_of_isBlank) _)
  have hafter := afterBlanks?_append v.gap_isRun
    (v.count_isRun.stops hdigit (v.fields.flatMap Field.chars ++ v.rest))
  have hends : Stops Char.isDigit (v.fields.flatMap Field.chars ++ v.rest) := by
    rcases h with hwhole | ⟨hnil, -, hstops⟩
    · exact (endsWord_fields fun _ => hwhole).stops_isDigit
    · simpa [hnil] using hstops
  have hcount := count?_eq_some_iff.2 ⟨v.count, v.count_isRun, hends, v.count_eq, v.count_lt, rfl⟩
  have hnumbers := numbers?_eq_some_iff.2
    ⟨v.fields, rfl, v.reads, h.symm.imp_left fun hzero => hzero.1, rfl⟩
  exact channelScales?_eq_some_iff.2 ⟨_, _, _, _, hname, hafter, hcount, hnumbers⟩

/-- All readings of one line have the same parts. -/
theorem VectorLine.parts_eq {v : VectorLine} {name : List Char} {xs : List Float}
    (h : v.WholeWords ∨ v.ZeroPrefix) (hline : v.line = cs)
    (hread : channelScales? cs = some ((name, xs), rest)) :
    v.name = name ∧ v.values = xs ∧ v.rest = rest := by
  rw [← hline, VectorLine.channelScales?_line h] at hread
  cases hread
  exact ⟨rfl, rfl, rfl⟩

theorem channelScales?_iff_vectorLine {name : List Char} {xs : List Float} :
    channelScales? cs = some ((name, xs), rest) ↔ ∃ v : VectorLine, v.line = cs ∧
      (v.WholeWords ∨ v.ZeroPrefix) ∧ v.name = name ∧ v.values = xs ∧ v.rest = rest := by
  constructor
  · intro h
    obtain ⟨left, after, n, left', hname, hafter, hcount, hnumbers⟩ := channelScales?_eq_some_iff.1 h
    obtain ⟨hword, -, hline⟩ := run?_eq_some_iff.1 hname
    obtain ⟨gap, hgap, -, rfl⟩ := afterBlanks?_eq_some_iff.1 hafter
    obtain ⟨count, hrun, hstops, rfl, hlt, rfl⟩ := count?_eq_some_iff.1 hcount
    obtain ⟨fields, hlength, hall, hends, rfl⟩ := numbers?_eq_some_iff.1 hnumbers
    refine ⟨⟨cs.takeWhile isBlank, name, gap, count, fields, xs, rest, fun c hc => List.mem_takeWhile_imp hc,
      hword, hgap, hrun, hlength.symm, hlength ▸ hlt, hall⟩, ?_, ?_, rfl, rfl, rfl⟩
    · rw [VectorLine.line, ← hline]
      exact List.takeWhile_append_dropWhile
    · by_cases hwhole : EndsWord rest
      · exact .inl hwhole
      · have hnil := hends.resolve_right hwhole
        rw [hnil] at hstops
        exact .inr ⟨hnil, hwhole, hstops⟩
  · rintro ⟨v, rfl, h, rfl, rfl, rfl⟩
    exact VectorLine.channelScales?_line h

/-- A line files a vector exactly if it gives one in whole words, and cuts the table if it does not. -/
def ReadInWholeWords (raw : String) : Prop :=
  (∀ name xs, Reader.Stores .weightScale raw (.channelScales name xs) ↔ ∃ v : VectorLine,
    v.line = Reader.content raw ∧ v.WholeWords ∧ name = String.ofList v.name ∧ xs = v.values) ∧
  ((∀ v : VectorLine, v.line = Reader.content raw → ¬v.WholeWords) → Reader.Cuts .weightScale raw)

section Line
variable {raw : String} (hdata : isComment (Reader.content raw) = false)
include hdata

theorem stores_vector_iff {name : String} {xs : List Float} :
    Reader.Stores .weightScale raw (.channelScales name xs) ↔ ∃ v : VectorLine,
      v.line = Reader.content raw ∧ (v.WholeWords ∨ v.ZeroPrefix) ∧ name = String.ofList v.name ∧
        xs = v.values := by
  rw [Reader.stores_iff, Section.judge_eq_entry_iff]
  constructor
  · rintro ⟨-, hfiles⟩
    cases hfiles with
    | weightScale hc =>
      obtain ⟨v, hline, h, rfl, rfl, -⟩ := channelScales?_iff_vectorLine.1 hc
      exact ⟨v, hline, h, rfl, rfl⟩
  · rintro ⟨v, hline, h, rfl, rfl⟩
    exact ⟨hdata, .weightScale (hline ▸ VectorLine.channelScales?_line h)⟩

theorem cuts_of_no_vector
    (h : ∀ v : VectorLine, v.line = Reader.content raw → ¬(v.WholeWords ∨ v.ZeroPrefix)) :
    Reader.Cuts .weightScale raw := by
  refine Reader.cuts_iff.2 (Section.judge_eq_cut_iff.2 ⟨hdata, fun e he => ?_, nofun⟩)
  cases he with
  | weightScale hc =>
    obtain ⟨v, hline, hread, -⟩ := channelScales?_iff_vectorLine.1 hc
    exact h v hline hread

theorem readInWholeWords_iff :
    ReadInWholeWords raw ↔ ∀ v : VectorLine, v.line = Reader.content raw → ¬v.ZeroPrefix := by
  constructor
  · rintro ⟨hstores, -⟩ v hline hzero
    have hfiled := (stores_vector_iff hdata).2 ⟨v, hline, .inr hzero, rfl, rfl⟩
    obtain ⟨v', hline', hwhole, -⟩ := (hstores _ _).1 hfiled
    obtain ⟨-, -, hrest⟩ := VectorLine.parts_eq (.inl hwhole) (hline'.trans hline.symm)
      (VectorLine.channelScales?_line (.inr hzero))
    exact hzero.2.1 (hrest ▸ hwhole)
  · intro hnone
    refine ⟨fun name xs => ?_, fun h => cuts_of_no_vector hdata fun v hline => ?_⟩
    · rw [stores_vector_iff hdata]
      constructor
      · rintro ⟨v, hline, hwhole | hzero, h⟩
        · exact ⟨v, hline, hwhole, h⟩
        · exact absurd hzero (hnone v hline)
      · rintro ⟨v, hline, hwhole, h⟩
        exact ⟨v, hline, .inl hwhole, h⟩
    · rintro (hwhole | hzero)
      · exact h v hline hwhole
      · exact hnone v hline hzero

end Line

/-- Among the channel scales a line files the vector that it gives in whole words, or an empty one if its count
is a zero with which a word only begins, and it cuts the table otherwise. So it is read in whole words exactly if
its count is no such zero. -/
theorem vectors_stored_iff (raw : String) (hdata : isComment (Reader.content raw) = false) :
    (∀ name xs, Reader.Stores .weightScale raw (.channelScales name xs) ↔ ∃ v : VectorLine,
      v.line = Reader.content raw ∧ (v.WholeWords ∨ v.ZeroPrefix) ∧ name = String.ofList v.name ∧
        xs = v.values) ∧
    ((∀ v : VectorLine, v.line = Reader.content raw → ¬(v.WholeWords ∨ v.ZeroPrefix)) →
      Reader.Cuts .weightScale raw) ∧
    (ReadInWholeWords raw ↔ ∀ v : VectorLine, v.line = Reader.content raw → ¬v.ZeroPrefix) := by
  refine ⟨fun name xs => ?_, cuts_of_no_vector hdata, readInWholeWords_iff hdata⟩
  exact stores_vector_iff hdata

/-- What follows the numbers is not read. -/
theorem vectors_stored_iff_more : isComment (Reader.content "\tw 2 0.5 1e-3 more") = false ∧
    Reader.Stores .weightScale "\tw 2 0.5 1e-3 more" (.channelScales "w" [0.5, 0.001]) ∧
    (∃ v : VectorLine, v.line = "\tw 2 0.5 1e-3 more".toList ∧ "w" = String.ofList v.name ∧
      [0.5, 0.001] = v.values) ∧
    ReadInWholeWords "\tw 2 0.5 1e-3 more" := by
  have hdata : isComment (Reader.content "\tw 2 0.5 1e-3 more") = false := by decide
  have hread : channelScales? (Reader.content "\tw 2 0.5 1e-3 more") =
    some (("w".toList, [0.5, 0.001]), " more".toList) := by decide +kernel
  have hstores : Reader.Stores .weightScale "\tw 2 0.5 1e-3 more" (.channelScales "w" [0.5, 0.001]) :=
    Reader.stores_iff.2 (by decide +kernel)
  obtain ⟨hiff, -, hwhole⟩ := vectors_stored_iff "\tw 2 0.5 1e-3 more" hdata
  obtain ⟨v, hline, -, hname, hvalues⟩ := (hiff _ _).1 hstores
  refine ⟨hdata, hstores, ⟨v, hline, hname, hvalues⟩, hwhole.2 fun v' hline' hzero => ?_⟩
  obtain ⟨-, hvalues', -⟩ := VectorLine.parts_eq (.inr hzero) hline' hread
  have hnone : v'.values = [] := List.forall₂_nil_left_iff.1 (hzero.1 ▸ v'.reads)
  cases hnone.symm.trans hvalues'

/-- A line on which the count was left out files an empty vector. -/
theorem vector_without_count : isComment (Reader.content "conv1_weight 0.5 0.25") = false ∧
    Reader.Stores .weightScale "conv1_weight 0.5 0.25" (.channelScales "conv1_weight" []) ∧
    ¬ReadInWholeWords "conv1_weight 0.5 0.25" := by
  have hstores : Reader.Stores .weightScale "conv1_weight 0.5 0.25" (.channelScales "conv1_weight" []) :=
    Reader.stores_iff.2 (by decide +kernel)
  have hread : channelScales? (Reader.content "conv1_weight 0.5 0.25") =
    some (("conv1_weight".toList, []), ".5 0.25".toList) := by decide +kernel
  refine ⟨by decide, hstores, fun h => ?_⟩
  obtain ⟨v, hline, hwhole, -⟩ := (h.1 _ _).1 hstores
  obtain ⟨-, -, hrest⟩ := VectorLine.parts_eq (.inl hwhole) hline hread
  have hends : EndsWord ".5 0.25".toList := hrest ▸ hwhole
  exact absurd (hends '.' rfl) (by decide)

end Calibration.Table
