import Calibration.Proofs.Table.Verdicts
import Calibration.Proofs.Table.Words

/-! # The shape of a record

A line has the shape of a record if it is laid out as a name and three fields, with nothing but blanks behind
them, and it can be laid out in one way only. The fields of such a line are read as what its shape holds,
as far as they are numbers. So the sections whose lines are records differ in what they refuse and never in what
they file.
-/
namespace Calibration.Table
open Text

@[ext]
structure Layout where
  name : List Char
  threshold : Field
  min : Field
  max : Field
  behind : List Char
  name_isWord : IsWord name
  behind_isBlank : ∀ c ∈ behind, isBlank c = true

namespace Layout
variable (l : Layout)

def shape : Shape := ⟨l.name, l.threshold.token, l.min.token, l.max.token⟩

def line : List Char :=
  l.name ++ (l.threshold.chars ++ (l.min.chars ++ (l.max.chars ++ l.behind)))

theorem endsWord_behind : EndsWord l.behind :=
  fun c hc => not_word_of_isBlank (l.behind_isBlank c (List.mem_of_head? hc))

end Layout

/-! ## One layout for each line of that shape -/

variable {line rest : List Char} {shape : Shape}

theorem shape?_eq_some_iff : shape? line = some (shape, rest) ↔ rest = [] ∧ ∃ left left' left'' behind,
    word? line = some (shape.name, left) ∧ numberChars? left = some (shape.threshold, left') ∧
      numberChars? left' = some (shape.min, left'') ∧ numberChars? left'' = some (shape.max, behind) ∧
        ∀ c ∈ behind, isBlank c = true := by
  simp only [← skipBlanks_eq_nil_iff]
  constructor
  · intro h
    obtain ⟨⟨_, left⟩, hname, h⟩ := Option.bind_eq_some_iff.1 h
    obtain ⟨⟨_, left'⟩, hthreshold, h⟩ := Option.bind_eq_some_iff.1 h
    obtain ⟨⟨_, left''⟩, hmin, h⟩ := Option.bind_eq_some_iff.1 h
    obtain ⟨⟨_, behind⟩, hmax, h⟩ := Option.bind_eq_some_iff.1 h
    obtain ⟨hbehind, h⟩ := Option.ite_none_right_eq_some.1 h
    cases h
    exact ⟨rfl, left, left', left'', behind, hname, hthreshold, hmin, hmax, List.isEmpty_iff.1 hbehind⟩
  · rintro ⟨rfl, left, left', left'', behind, hname, hthreshold, hmin, hmax, hbehind⟩
    simp [shape?, hname, hthreshold, hmin, hmax, hbehind]

theorem Layout.shape?_line (l : Layout) : shape? l.line = some (l.shape, []) := by
  have hname : word? l.line = some (l.name, l.threshold.chars ++ (l.min.chars ++ (l.max.chars ++ l.behind))) :=
    run?_append l.name_isWord (l.threshold.endsWord_append _)
  have hthreshold := numberChars?_eq_some_iff.2
    ⟨l.threshold, rfl, (l.min.endsWord_append (l.max.chars ++ l.behind)).stops_isNumberChar, rfl⟩
  have hmin := numberChars?_eq_some_iff.2
    ⟨l.min, rfl, (l.max.endsWord_append l.behind).stops_isNumberChar, rfl⟩
  have hmax := numberChars?_eq_some_iff.2 ⟨l.max, rfl, l.endsWord_behind.stops_isNumberChar, rfl⟩
  exact shape?_eq_some_iff.2 ⟨rfl, _, _, _, _, hname, hthreshold, hmin, hmax, l.behind_isBlank⟩

theorem exists_layout (h : shape? line = some (shape, rest)) :
    ∃ l : Layout, l.line = line ∧ l.shape = shape := by
  obtain ⟨-, left, left', left'', behind, hname, hthreshold, hmin, hmax, hbehind⟩ :=
    shape?_eq_some_iff.1 h
  obtain ⟨hword, -, rfl⟩ := run?_eq_some_iff.1 hname
  obtain ⟨threshold, ht, -, rfl⟩ := numberChars?_eq_some_iff.1 hthreshold
  obtain ⟨min, hm, -, rfl⟩ := numberChars?_eq_some_iff.1 hmin
  obtain ⟨max, hM, -, rfl⟩ := numberChars?_eq_some_iff.1 hmax
  exact ⟨⟨shape.name, threshold, min, max, behind, hword, hbehind⟩, rfl, by simp [Layout.shape, ht, hm, hM]⟩

/-- From the left, each part of a layout ends where the next one begins. -/
theorem Layout.line_injective : Function.Injective Layout.line := by
  intro l l' h
  obtain ⟨hname, h⟩ := l.name_isWord.append_inj l'.name_isWord (l.threshold.endsWord_append _)
    (l'.threshold.endsWord_append _) h
  obtain ⟨hthreshold, h⟩ := Field.append_inj (l.min.endsWord_append _).stops_isNumberChar
    (l'.min.endsWord_append _).stops_isNumberChar h
  obtain ⟨hmin, h⟩ := Field.append_inj (l.max.endsWord_append _).stops_isNumberChar
    (l'.max.endsWord_append _).stops_isNumberChar h
  obtain ⟨hmax, hbehind⟩ := Field.append_inj l.endsWord_behind.stops_isNumberChar
    l'.endsWord_behind.stops_isNumberChar h
  exact Layout.ext hname hthreshold hmin hmax hbehind

/-- The lines of the shape of a record are those that can be laid out, each in one way only, and then all of the
line is read. -/
theorem shape?_reads_layouts :
    (∀ line out, shape? line = some out ↔ ∃ l : Layout, l.line = line ∧ out = (l.shape, [])) ∧
    ∀ l l' : Layout, l.line = l'.line → l = l' := by
  refine ⟨fun line out => ⟨fun h => ?_, ?_⟩, fun l l' h => Layout.line_injective h⟩
  · obtain ⟨shape, rest⟩ := out
    obtain ⟨hrest, -⟩ := shape?_eq_some_iff.1 h
    obtain ⟨l, hline, hshape⟩ := exists_layout h
    exact ⟨l, hline, by rw [hshape, hrest]⟩
  · rintro ⟨l, rfl, rfl⟩
    exact l.shape?_line

/-- A name like a number, and blanks of both kinds. -/
theorem shape?_reads_layouts_blanks : ∃ l : Layout, l.line = "1e5 \t2.5 -  .\t ".toList ∧
    shape? "1e5 \t2.5 -  .\t ".toList = some (⟨"1e5".toList, "2.5".toList, "-".toList, ".".toList⟩, []) ∧
    ∀ l' : Layout, l'.line = "1e5 \t2.5 -  .\t ".toList → l' = l := by
  have hread : shape? "1e5 \t2.5 -  .\t ".toList =
    some (⟨"1e5".toList, "2.5".toList, "-".toList, ".".toList⟩, []) := by decide
  obtain ⟨l, hl, -⟩ := (shape?_reads_layouts.1 _ _).1 hread
  exact ⟨l, hl, hread, fun l' hl' => shape?_reads_layouts.2 l' l (hl'.trans hl.symm)⟩

/-! ## The same fields in both sections -/

theorem Layout.record?_line_iff {l : Layout} {name : List Char} {r : Record} :
    record? l.line = some ((name, r), rest) ↔ name = l.name ∧ ReadsAs l.threshold.token r.threshold ∧
      ReadsAs l.min.token r.min ∧ ReadsAs l.max.token r.max ∧ rest = l.behind := by
  have hname : word? (skipBlanks l.line) =
      some (l.name, l.threshold.chars ++ (l.min.chars ++ (l.max.chars ++ l.behind))) := by
    rw [line, skipBlanks_append l.name_isWord]
    exact run?_append l.name_isWord (l.threshold.endsWord_append _)
  have hends := l.min.endsWord_append (l.max.chars ++ l.behind)
  have hends' := l.max.endsWord_append l.behind
  rw [record?_eq_some_iff]
  constructor
  · rintro ⟨left, left', left'', hword, hnumber, hnumber', hnumber''⟩
    cases hname.symm.trans hword
    obtain ⟨hthreshold, rfl⟩ := (number?_field_iff hends).1 hnumber
    obtain ⟨hmin, rfl⟩ := (number?_field_iff hends').1 hnumber'
    obtain ⟨hmax, rfl⟩ := (number?_field_iff l.endsWord_behind).1 hnumber''
    exact ⟨rfl, hthreshold, hmin, hmax, rfl⟩
  · rintro ⟨rfl, hthreshold, hmin, hmax, rfl⟩
    exact ⟨_, _, _, hname, (number?_field_iff hends).2 ⟨hthreshold, rfl⟩,
      (number?_field_iff hends').2 ⟨hmin, rfl⟩, (number?_field_iff l.endsWord_behind).2 ⟨hmax, rfl⟩⟩

/-- What the default records take in or refuse for its numbers, the records for four bits do as well. -/
theorem Section.judge_int4_of_default : (∀ e, Section.default.judge line = .entry e →
      ∃ name r, e = .default name r ∧ Section.int4.judge line = .entry (.int4 name r)) ∧
    (Section.default.judge line = .cut → Section.int4.judge line = .cut) := by
  constructor
  · intro e h
    obtain ⟨hdata, hfiles⟩ := judge_eq_entry_iff.1 h
    cases hfiles with
    | default _ hr => exact ⟨_, _, rfl, judge_eq_entry_iff.2 ⟨hdata, .int4 hr⟩⟩
  · intro h
    obtain ⟨hdata, hnone, hshape⟩ := judge_eq_cut_iff.1 h
    refine judge_eq_cut_iff.2 ⟨hdata, fun e he => ?_, nofun⟩
    obtain ⟨shape, hs⟩ := Option.ne_none_iff_exists'.1 (hshape rfl)
    cases he with
    | int4 hr => exact hnone _ (.default hs hr)

/-- A line of the shape of a record holds a record exactly if all three of its numbers read as finite floats,
and then it is the record of these. So a line that files a record by default files the same one under the same
name for four bits, and a line that cuts a table by default cuts it there as well. -/
theorem shaped_lines_read_alike :
    (∀ line shape rest, shape? line = some (shape, rest) → ∀ name r,
      (∃ rest', record? line = some ((name, r), rest')) ↔ name = shape.name ∧
        ReadsAs shape.threshold r.threshold ∧ ReadsAs shape.min r.min ∧ ReadsAs shape.max r.max) ∧
    ∀ (d : Reader) (raw : String), d.mode = .default → d.status = .complete →
      (isComment (Reader.content raw) = false → (d.feed raw).2 = .ok .proceed → ∃ name r,
        Reader.Stores .default raw (.default name r) ∧ Reader.Stores .int4 raw (.int4 name r)) ∧
      ((d.feed raw).2 = .ok .stop → Reader.Cuts .default raw ∧ Reader.Cuts .int4 raw) := by
  refine ⟨?_, fun d raw hmode hs => ⟨?_, ?_⟩⟩
  · intro line shape rest h name r
    obtain ⟨l, rfl, rfl⟩ := exists_layout h
    simp [Layout.record?_line_iff, Layout.shape]
  · intro hdata hproceed
    obtain ⟨e, he⟩ := Reader.judge_of_proceed hs hdata hproceed
    rw [hmode] at he
    obtain ⟨name, r, rfl, hint4⟩ := Section.judge_int4_of_default.1 e he
    exact ⟨name, r, Reader.stores_iff.2 he, Reader.stores_iff.2 hint4⟩
  · intro hstop
    have hcut := Reader.judge_of_stop hs hstop
    rw [hmode] at hcut
    exact ⟨Reader.cuts_iff.2 hcut, Reader.cuts_iff.2 (Section.judge_int4_of_default.2 hcut)⟩

/-- Words of number characters need not be numbers. -/
theorem shaped_lines_read_alike_garbage :
    shape? "c\t1e1 -.5 +2 ".toList = some (⟨"c".toList, "1e1".toList, "-.5".toList, "+2".toList⟩, []) ∧
    (∃ rest, record? "c\t1e1 -.5 +2 ".toList = some (("c".toList, ⟨10, -0.5, 2⟩), rest)) ∧
    (∃ name r, Reader.Stores .default "c\t1e1 -.5 +2 \r" (.default name r) ∧
      Reader.Stores .int4 "c\t1e1 -.5 +2 \r" (.int4 name r)) ∧
    Reader.Cuts .default "t2 1.2.3 e -" ∧ Reader.Cuts .int4 "t2 1.2.3 e -" := by
  have hshape : shape? "c\t1e1 -.5 +2 ".toList =
    some (⟨"c".toList, "1e1".toList, "-.5".toList, "+2".toList⟩, []) := by decide
  have hrecord := (shaped_lines_read_alike.1 _ _ _ hshape "c".toList ⟨10, -0.5, 2⟩).2
    ⟨rfl, ⟨by decide +kernel, by decide +kernel⟩, ⟨by decide +kernel, by decide +kernel⟩,
      ⟨by decide +kernel, by decide +kernel⟩⟩
  have hstored := (shaped_lines_read_alike.2 .start "c\t1e1 -.5 +2 \r" rfl rfl).1 (by decide)
    (by decide +kernel)
  have hcut := (shaped_lines_read_alike.2 .start "t2 1.2.3 e -" rfl rfl).2 (by decide +kernel)
  exact ⟨hshape, hrecord, hstored, hcut⟩

end Calibration.Table
