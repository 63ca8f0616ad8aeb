import Calibration.Proofs.Table.Reading
import Calibration.Proofs.Table.Shapes
import Calibration.Proofs.Table.Vectors
import Calibration.Proofs.Text.Lines

/-! # Tables as they are written

A table is written as its records, a marker, the records for four bits, another marker and the vectors, and
between any two lines comments may stand. It is read to its end, and every entry is filed.
-/
namespace Calibration.Table
open Text

structure EntryName where
  chars : List Char
  isWord : IsWord chars
  head_ne : chars.head? ≠ some '#'

/-- A number as it is written, and the finite float that it reads as. -/
structure Numeral where
  chars : List Char
  value : Float
  isNumberChar : ∀ c ∈ chars, isNumberChar c = true
  reads : float? chars = some value
  finite : value.isFinite = true

def spaced (xs : List Numeral) : List Char := xs.flatMap fun x => ' ' :: x.chars

def EntryName.text (name : EntryName) : String := String.ofList name.chars

structure WrittenRecord where
  name : EntryName
  threshold : Numeral
  min : Numeral
  max : Numeral

/-- The number of scales is one that a machine counts. -/
structure WrittenVector where
  name : EntryName
  scales : List Numeral
  length_lt : scales.length < UInt64.size

def WrittenRecord.line (r : WrittenRecord) : List Char :=
  r.name.chars ++ spaced [r.threshold, r.min, r.max]

def WrittenRecord.record (r : WrittenRecord) : Record := ⟨r.threshold.value, r.min.value, r.max.value⟩

def WrittenVector.line (v : WrittenVector) : List Char :=
  v.name.chars ++ ' ' :: (Nat.toDigits 10 v.scales.length ++ spaced v.scales)

def WrittenVector.values (v : WrittenVector) : List Float := v.scales.map Numeral.value

structure WrittenTable where
  default : List WrittenRecord
  int4 : List WrittenRecord
  channelScales : List WrittenVector

namespace WrittenTable

def lines (w : WrittenTable) : List (List Char) :=
  w.default.map WrittenRecord.line ++ int4Marker :: (w.int4.map WrittenRecord.line ++
    weightScaleMarker :: w.channelScales.map WrittenVector.line)

def tables (w : WrittenTable) : Tables :=
  let t := w.default.foldl (fun t r => t.insertDefault r.name.text r.record) .empty
  let t := w.int4.foldl (fun t r => t.insertInt4 r.name.text r.record) t
  w.channelScales.foldl (fun t v => t.insertChannelScales v.name.text v.values) t

end WrittenTable

/-- A comment line that moves nothing. -/
structure PlainComment (line : List Char) : Prop where
  isComment : isComment line = true
  newline_not_mem : '\n' ∉ line
  no_int4 : ¬int4Marker <:+: line
  no_weightScale : ¬weightScaleMarker <:+: line

/-- Lines, and the same lines with plain comments among them. -/
inductive Commented : List (List Char) → List (List Char) → Prop
  | nil : Commented [] []
  | comment {line : List Char} {bare ls : List (List Char)} (hline : PlainComment line)
    (h : Commented bare ls) : Commented bare (line :: ls)
  | line {line : List Char} {bare ls : List (List Char)} (h : Commented bare ls) :
    Commented (line :: bare) (line :: ls)

def textOf (ls : List (List Char)) : String := String.ofList (ls.flatMap fun line => line ++ ['\n'])

/-! ## Single lines -/

theorem PlainComment.afterComment {line : List Char} (h : PlainComment line) (s : Section) :
    s.afterComment line = s := by
  have hint4 : carries int4Marker line = false := by
    simpa [← carries_eq_true_iff] using h.no_int4
  have hscale : carries weightScaleMarker line = false := by
    simpa [← carries_eq_true_iff] using h.no_weightScale
  cases s <;> simp [Section.afterComment, hint4, hscale]

theorem Numeral.ne_nil (x : Numeral) : x.chars ≠ [] := by
  intro hnil
  have hreads := x.reads
  rw [hnil] at hreads
  cases hreads

def Numeral.field (x : Numeral) : Field where
  gap := [' ']
  token := x.chars
  gap_isRun := .of_all (by simp) (by decide)
  token_isRun := ⟨x.ne_nil, x.isNumberChar⟩

theorem Numeral.readsAs (x : Numeral) : ReadsAs x.field.token x.value := ⟨x.reads, x.finite⟩

theorem spaced_eq_fields (xs : List Numeral) :
    spaced xs = (xs.map Numeral.field).flatMap Field.chars := by
  rw [List.flatMap_map]
  rfl

theorem EntryName.isComment_append (name : EntryName) (rest : List Char) :
    isComment (name.chars ++ rest) = false := by
  have hhead := name.head_ne
  cases hchars : name.chars with
  | nil => exact absurd hchars name.isWord.ne_nil
  | cons c cs =>
    rw [hchars] at hhead
    simpa [isComment] using hhead

namespace WrittenRecord
variable (r : WrittenRecord)

def layout : Layout where
  name := r.name.chars
  threshold := r.threshold.field
  min := r.min.field
  max := r.max.field
  behind := []
  name_isWord := r.name.isWord
  behind_isBlank := nofun

theorem line_layout : r.layout.line = r.line := by
  simp [line, spaced_eq_fields, Layout.line, layout]

theorem record?_line : record? r.line = some ((r.name.chars, r.record), []) := by
  rw [← r.line_layout]
  exact Layout.record?_line_iff.2 ⟨rfl, r.threshold.readsAs, r.min.readsAs, r.max.readsAs, rfl⟩

theorem shape?_line : shape? r.line = some (r.layout.shape, []) := by
  rw [← r.line_layout]
  exact r.layout.shape?_line

end WrittenRecord

namespace WrittenVector
variable (v : WrittenVector)

def vectorLine : VectorLine where
  lead := []
  name := v.name.chars
  gap := [' ']
  count := Nat.toDigits 10 v.scales.length
  fields := v.scales.map Numeral.field
  values := v.values
  rest := []
  lead_isBlank := nofun
  name_isWord := v.name.isWord
  gap_isRun := .of_all (by simp) (by decide)
  count_isRun := isRun_toDigits v.scales.length
  count_eq := by
    rw [List.length_map]
    exact Nat.ofDigitChars_ten_toDigits
  count_lt := by simpa using v.length_lt
  reads := by simp [values, Numeral.readsAs]

theorem line_vectorLine : v.vectorLine.line = v.line := by
  simp [line, spaced_eq_fields, VectorLine.line, vectorLine]

theorem channelScales?_line : channelScales? v.line = some ((v.name.chars, v.values), []) := by
  rw [← v.line_vectorLine]
  exact VectorLine.channelScales?_line (.inl nofun)

end WrittenVector

/-! ## All lines -/

inductive Fills : Section → Tables → List (List Char) → Section → Tables → Prop
  | nil {s : Section} {t : Tables} : Fills s t [] s t
  | comment {s s' : Section} {t t' : Tables} {line : List Char} {ls : List (List Char)}
    (hline : isComment line = true) (h : Fills (s.afterComment line) t ls s' t') :
    Fills s t (line :: ls) s' t'
  | entry {s s' : Section} {t t' : Tables} {line : List Char} {ls : List (List Char)} {e : Entry}
    (hline : isComment line = false) (he : Files line s e) (h : Fills s (fileEntry t e) ls s' t') :
    Fills s t (line :: ls) s' t'

namespace Fills
variable {s s' s'' : Section} {t t' t'' : Tables} {ls ls' bare : List (List Char)}

theorem append (h : Fills s t ls s' t') (h' : Fills s' t' ls' s'' t'') :
    Fills s t (ls ++ ls') s'' t'' := by
  induction h with
  | nil => exact h'
  | comment hline _ ih => exact .comment hline (ih h')
  | entry hline he _ ih => exact .entry hline he (ih h')

/-- Lines that all file in the section where they stand. -/
theorem map {α : Type} {line : α → List Char} {entry : α → Entry}
    (h : ∀ a, isComment (line a) = false ∧ Files (line a) s (entry a)) (as : List α) (t : Tables) :
    Fills s t (as.map line) s (as.foldl (fun t a => fileEntry t (entry a)) t) := by
  induction as generalizing t with
  | nil => exact .nil
  | cons a as ih => exact .entry (h a).1 (h a).2 (ih _)

theorem commented (h : Fills s t bare s' t') (hls : Commented bare ls) : Fills s t ls s' t' := by
  induction hls generalizing s t with
  | nil => exact h
  | comment hline _ ih =>
    have hstays : s.afterComment _ = s := hline.afterComment s
    exact .comment hline.isComment (hstays.symm ▸ ih h)
  | line _ ih =>
    cases h with
    | comment hline h => exact .comment hline (ih h)
    | entry hline he h => exact .entry hline he (ih h)

/-- The run of a reader over such lines. -/
theorem run {r : Reader} {raws : List String} (h : Fills r.mode r.tables (raws.map Reader.content) s' t')
    (hs : r.status = .complete) :
    ∃ n, r.run (raws.map .ok) = .ok ⟨s', n, t', .complete⟩ := by
  induction raws generalizing r with
  | nil =>
    cases h
    exact ⟨r.line, congrArg Except.ok (by rw [← hs])⟩
  | cons raw raws ih =>
    rw [List.map_cons, Reader.run]
    cases h with
    | comment hline h =>
      have hjudge : r.mode.judge (Reader.content raw) =
          .comment (r.mode.afterComment (Reader.content raw)) := if_pos hline
      have hfeed : r.feed raw = ({ r with
          line := r.line + 1
          mode := r.mode.afterComment (Reader.content raw) }, .ok .proceed) := by
        simp [Reader.feed, hs, Status.isTruncated, hjudge]
      rw [hfeed]
      exact ih h hs
    | entry hline he h =>
      rw [Reader.stores_iff.2 (he.judge hline) r rfl hs]
      exact ih h hs

theorem parseText_eq {text : String} (h : Fills .default .empty (judgedLines text) s t) :
    parseText text = .ok ⟨t, .complete⟩ := by
  obtain ⟨n, hrun⟩ := run (r := .start) h rfl
  change (Reader.start.run ((Text.lines text).map .ok)).map Reader.parsed = _
  rw [hrun]
  rfl

end Fills

namespace WrittenTable
variable (w : WrittenTable)

theorem fills : Fills .default .empty w.lines .weightScale w.tables := by
  have hdefault := Fills.map (s := .default) (fun r : WrittenRecord =>
    ⟨r.name.isComment_append _, .default r.shape?_line r.record?_line⟩) w.default .empty
  have hint4 := Fills.map (s := .int4) (fun r : WrittenRecord =>
    ⟨r.name.isComment_append _, .int4 r.record?_line⟩) w.int4
  have hscales := Fills.map (s := .weightScale) (fun v : WrittenVector =>
    ⟨v.name.isComment_append _, .weightScale v.channelScales?_line⟩) w.channelScales
  exact hdefault.append (.comment rfl ((hint4 _).append (.comment rfl (hscales _))))

end WrittenTable

/-! ## Line ends

Only the comments may have carriage returns at their ends, and plain comments they are without them too.
-/

def Unbroken (line : List Char) : Prop := ∀ c ∈ line, isWhitespace c = true → c = ' '

theorem Unbroken.not_mem {line : List Char} (h : Unbroken line) {c : Char} (hc : isWhitespace c = true)
    (hne : c ≠ ' ') : c ∉ line := fun hmem => hne (h c hmem hc)

theorem Unbroken.append {cs cs' : List Char} (h : Unbroken cs) (h' : Unbroken cs') :
    Unbroken (cs ++ cs') := by
  intro c hc
  rcases List.mem_append.1 hc with hc | hc
  · exact h c hc
  · exact h' c hc

theorem Unbroken.cons_space {cs : List Char} (h : Unbroken cs) : Unbroken (' ' :: cs) := by
  intro c hc hspace
  rcases List.mem_cons.1 hc with rfl | hc
  · rfl
  · exact h c hc hspace

theorem unbroken_of_isWord {word : List Char} (h : IsWord word) : Unbroken word := by
  intro c hc hspace
  have hword := h.all c hc
  simp [hspace] at hword

theorem unbroken_spaced (xs : List Numeral) : Unbroken (spaced xs) := by
  induction xs with
  | nil => exact nofun
  | cons x xs ih =>
    exact ((unbroken_of_isWord x.field.token_isWord).append ih).cons_space

theorem unbroken_toDigits (n : Nat) : Unbroken (Nat.toDigits 10 n) := by
  intro c hc hspace
  simp [isWhitespace_of_isDigit ((isRun_toDigits n).all c hc)] at hspace

theorem WrittenTable.unbroken_lines (w : WrittenTable) : ∀ line ∈ w.lines, Unbroken line := by
  have hrecord (r : WrittenRecord) : Unbroken r.line :=
    (unbroken_of_isWord r.name.isWord).append (unbroken_spaced _)
  have hvector (v : WrittenVector) : Unbroken v.line :=
    (unbroken_of_isWord v.name.isWord).append ((unbroken_toDigits _).append (unbroken_spaced _)).cons_space
  have hint4 : Unbroken int4Marker := unbroken_of_isWord (.of_all (by decide) (by decide))
  have hscale : Unbroken weightScaleMarker := unbroken_of_isWord (.of_all (by decide) (by decide))
  simp only [lines, List.forall_mem_append, List.forall_mem_cons, List.forall_mem_map]
  exact ⟨fun r _ => hrecord r, hint4, fun r _ => hrecord r, hscale, fun v _ => hvector v⟩

theorem PlainComment.dropReturn {line : List Char} (h : PlainComment line) :
    PlainComment (dropFinal '\r' line) := by
  unfold dropFinal
  split
  · next hlast =>
    obtain ⟨init, rfl⟩ := List.getLast?_eq_some_iff.1 hlast
    have hstart : init <+: init ++ ['\r'] := List.prefix_append _ _
    rw [List.dropLast_concat]
    refine ⟨?_, fun hmem => h.newline_not_mem (hstart.subset hmem),
      fun hmarker => h.no_int4 (hmarker.trans hstart.isInfix),
      fun hmarker => h.no_weightScale (hmarker.trans hstart.isInfix)⟩
    have hhash := h.isComment
    cases init with
    | nil => cases hhash
    | cons c init => exact hhash
  · exact h

namespace Commented
variable {bare ls : List (List Char)}

theorem refl (ls : List (List Char)) : Commented ls ls := by
  induction ls with
  | nil => exact .nil
  | cons _ _ ih => exact .line ih

theorem dropReturns (h : Commented bare ls) (hbare : ∀ line ∈ bare, Unbroken line) :
    Commented bare (ls.map (dropFinal '\r')) := by
  induction h with
  | nil => exact .nil
  | comment hline _ ih => exact .comment hline.dropReturn (ih hbare)
  | @line line _ _ _ ih =>
    obtain ⟨hline, hrest⟩ := List.forall_mem_cons.1 hbare
    have hreturn : '\r' ∉ line := hline.not_mem (by decide) (by decide)
    rw [List.map_cons, dropFinal_of_not_mem hreturn]
    exact .line (ih hrest)

theorem newline_not_mem (h : Commented bare ls) (hbare : ∀ line ∈ bare, Unbroken line) :
    ∀ line ∈ ls, '\n' ∉ line := by
  induction h with
  | nil => exact nofun
  | comment hline _ ih => exact List.forall_mem_cons.2 ⟨hline.newline_not_mem, ih hbare⟩
  | line _ ih =>
    obtain ⟨hline, hrest⟩ := List.forall_mem_cons.1 hbare
    exact List.forall_mem_cons.2 ⟨hline.not_mem (by decide) (by decide), ih hrest⟩

end Commented

theorem judgedLines_textOf {ls : List (List Char)} (h : ∀ line ∈ ls, '\n' ∉ line) :
    judgedLines (textOf ls) = (ls.map (dropFinal '\r')).map (dropFinal '\r') := by
  rw [judgedLines_eq, textOf, String.toList_ofList, splitLines_flatMap h]

/-- A written table is read to its end, with any plain comments among its lines, and holds all its entries
filed in their order. -/
theorem parseText_textOf_written (w : WrittenTable) {ls : List (List Char)} (h : Commented w.lines ls) :
    parseText (textOf ls) = .ok ⟨w.tables, .complete⟩ := by
  have hjudged : Commented w.lines (judgedLines (textOf ls)) := by
    rw [judgedLines_textOf (h.newline_not_mem w.unbroken_lines)]
    exact (h.dropReturns w.unbroken_lines).dropReturns w.unbroken_lines
  exact (w.fills.commented hjudged).parseText_eq

def oneHalf : Numeral := ⟨"+.5".toList, 0.5, List.all_eq_true.1 (by decide), by decide +kernel,
  by decide +kernel⟩
def minusTen : Numeral := ⟨"-1e1".toList, -10, List.all_eq_true.1 (by decide), by decide +kernel,
  by decide +kernel⟩
def twoPointFive : Numeral := ⟨"2.50".toList, 2.5, List.all_eq_true.1 (by decide), by decide +kernel,
  by decide +kernel⟩

/-- A name like a number that comes twice, one with a marker in it, no records for four bits and a vector
without scales. -/
def oddTable : WrittenTable where
  default := [
    ⟨⟨"1.5".toList, IsRun.of_all (by decide) (by decide), by decide⟩, oneHalf, minusTen, twoPointFive⟩,
    ⟨⟨"a#weight_scale".toList, IsRun.of_all (by decide) (by decide), by decide⟩, oneHalf, minusTen, oneHalf⟩,
    ⟨⟨"1.5".toList, IsRun.of_all (by decide) (by decide), by decide⟩, twoPointFive, minusTen, twoPointFive⟩]
  int4 := []
  channelScales := [
    ⟨⟨"v".toList, IsRun.of_all (by decide) (by decide), by decide⟩, [], by decide⟩,
    ⟨⟨"ü".toList, IsRun.of_all (by decide) (by decide), by decide⟩, [oneHalf, twoPointFive], by decide⟩]

def oddText : String :=
  "# net\r\n1.5 +.5 -1e1 2.50\n#\na#weight_scale +.5 -1e1 +.5\n1.5 2.50 -1e1 2.50\n#int4_th\n#weight_scale\n" ++
  "v 0\nü 2 +.5 2.50\n"

theorem parseText_oddText : ∃ ls, Commented oddTable.lines ls ∧ textOf ls = oddText ∧
    parseText oddText = .ok ⟨oddTable.tables, .complete⟩ ∧
    oddTable.tables.default.get? "1.5" = some ⟨2.5, -10, 2.5⟩ := by
  have hls : Commented oddTable.lines ("# net\r".toList :: "1.5 +.5 -1e1 2.50".toList :: ['#'] ::
      oddTable.lines.tail) :=
    .comment ⟨rfl, by decide +kernel, by decide +kernel, by decide +kernel⟩
      (.line (.comment ⟨rfl, by decide, by decide, by decide⟩ (.refl _)))
  have htext : textOf ("# net\r".toList :: "1.5 +.5 -1e1 2.50".toList :: ['#'] ::
      oddTable.lines.tail) = oddText := by decide +kernel
  exact ⟨_, hls, htext, htext ▸ parseText_textOf_written oddTable hls, by decide +kernel⟩

end Calibration.Table
