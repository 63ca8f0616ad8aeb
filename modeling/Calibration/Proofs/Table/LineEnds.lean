import Calibration.Proofs.Table.Reading
import Calibration.Proofs.Text.Lines

/-! # How the lines of a table end

A return before a newline goes with it, and one that is left at the end of a line is dropped before the line is
judged. So a text without returns says the same with returns before any of its newlines, and with one behind a
last line that no newline ends.
-/
namespace Calibration.Text
variable {α : Type} {newline ret : α}

/-- The second sequence is the first with returns before some of its newlines, and perhaps with one at the end if
no newline stands there. -/
inductive Returned (newline ret : α) : List α → List α → Prop
  | nil : Returned newline ret [] []
  | atEnd {a : α} (ha : a ≠ newline) : Returned newline ret [a] [a, ret]
  | keep (a : α) {xs ys : List α} (h : Returned newline ret xs ys) : Returned newline ret (a :: xs) (a :: ys)
  | beforeNewline {xs ys : List α} (h : Returned newline ret xs ys) :
    Returned newline ret (newline :: xs) (ret :: newline :: ys)

namespace Returned
variable {line rest ys : List α}

theorem behind (start : List α) {xs : List α} (h : Returned newline ret xs ys) :
    Returned newline ret (start ++ xs) (start ++ ys) := by
  induction start with
  | nil => exact h
  | cons a _ ih => exact .keep a ih

theorem refl (xs : List α) : Returned newline ret xs xs := by
  have h := (@Returned.nil α newline ret).behind xs
  rwa [List.append_nil] at h

theorem of_unended (h : Returned newline ret line ys) (hline : newline ∉ line) :
    ys = line ∨ ys = line ++ [ret] := by
  induction h with
  | nil => exact .inl rfl
  | atEnd => exact .inr rfl
  | keep a _ ih =>
    rcases ih (List.not_mem_of_not_mem_cons hline) with rfl | rfl
    · exact .inl rfl
    · exact .inr rfl
  | beforeNewline => exact absurd List.mem_cons_self hline

theorem of_ended (h : Returned newline ret (line ++ newline :: rest) ys) (hline : newline ∉ line) :
    ∃ rest', Returned newline ret rest rest' ∧
      (ys = line ++ newline :: rest' ∨ ys = line ++ ret :: newline :: rest') := by
  induction line generalizing ys with
  | nil =>
    cases h with
    | atEnd ha => exact absurd rfl ha
    | keep _ h => exact ⟨_, h, .inl rfl⟩
    | beforeNewline h => exact ⟨_, h, .inr rfl⟩
  | cons a line ih =>
    rw [List.cons_append] at h
    generalize hxs : line ++ newline :: rest = xs at h
    cases h with
    | atEnd => simp at hxs
    | keep _ h =>
      subst hxs
      obtain ⟨rest', hrest, rfl | rfl⟩ := ih h (List.not_mem_of_not_mem_cons hline)
      · exact ⟨rest', hrest, .inl rfl⟩
      · exact ⟨rest', hrest, .inr rfl⟩
    | beforeNewline => exact absurd List.mem_cons_self hline

/-- The lines are those that there were, once a return at the end of one is dropped. -/
theorem splitLines_map_dropFinal [DecidableEq α] (hne : newline ≠ ret) {xs : List α} {ls : List (List α)}
    (hsplit : SplitInto newline ret xs ls) (hret : ret ∉ xs) (h : Returned newline ret xs ys) :
    (splitLines newline ret ys).map (dropFinal ret) = ls := by
  induction hsplit generalizing ys with
  | empty =>
    cases h
    rfl
  | @unended line hline hmem =>
    rcases h.of_unended hmem with rfl | rfl
    · rw [splitLines_unended hline hmem, List.map_singleton, dropFinal_of_not_mem hret]
    · have hsnoc : newline ∉ line ++ [ret] := by simp [hmem, hne]
      rw [splitLines_unended (by simp) hsnoc, List.map_singleton, dropFinal_append_self]
  | @ended line rest ls hmem _ _ ih =>
    obtain ⟨hline, hrest⟩ : ret ∉ line ∧ ret ∉ rest := by simp_all
    obtain ⟨rest', hrest', rfl | rfl⟩ := h.of_ended hmem
    · rw [splitLines_append_cons hmem, List.map_cons, ih hrest hrest', dropFinal_of_not_mem hline,
        dropFinal_of_not_mem hline]
    · rw [splitLines_append_pair hne hmem, List.map_cons, ih hrest hrest', dropFinal_of_not_mem hline]
  | endedByPair => simp at hret

end Returned
end Calibration.Text

namespace Calibration.Table
open Text

theorem judgedLines_of_returned {text text' : String} (hret : '\r' ∉ text.toList)
    (h : Returned '\n' '\r' text.toList text'.toList) :
    judgedLines text' = splitLines '\n' '\r' text.toList := by
  rw [judgedLines_eq]
  exact h.splitLines_map_dropFinal (by decide) (.of_splitLines _) hret

/-- Whether lines end with a newline or with a return before it makes no difference to what a text says, to where
its reading ends or to the error that it gives. -/
theorem parseText_of_returned {text text' : String} (hret : '\r' ∉ text.toList)
    (h : Returned '\n' '\r' text.toList text'.toList) : parseText text' = parseText text := by
  have hlines : judgedLines text' = judgedLines text := by
    rw [judgedLines_of_returned hret h, judgedLines_of_returned hret (.refl _)]
  have hreading := reading_parseText text'
  rw [hlines] at hreading
  exact hreading.unique (reading_parseText text)

/-- One of two newlines has a return and so has the line that is open at the end. The table is cut there, at the
same line and with the same content. -/
theorem parseText_of_returned_mixed :
    '\r' ∉ "x 1 -1 1\n#int4_th\nw 2".toList ∧
    Returned '\n' '\r' "x 1 -1 1\n#int4_th\nw 2".toList "x 1 -1 1\n#int4_th\r\nw 2\r".toList ∧
    parseText "x 1 -1 1\n#int4_th\r\nw 2\r" = parseText "x 1 -1 1\n#int4_th\nw 2" ∧
    (parseText "x 1 -1 1\n#int4_th\nw 2").toOption.map Parsed.status = some (.truncated 3 "w 2") := by
  have hret : '\r' ∉ "x 1 -1 1\n#int4_th\nw 2".toList := by decide
  have hlast : Returned '\n' '\r' ['2'] ['2', '\r'] := .atEnd (by decide)
  have h : Returned '\n' '\r' "x 1 -1 1\n#int4_th\nw 2".toList "x 1 -1 1\n#int4_th\r\nw 2\r".toList :=
    (hlast.behind "w ".toList).beforeNewline.behind "x 1 -1 1\n#int4_th".toList
  exact ⟨hret, h, parseText_of_returned hret h, by decide +kernel⟩

end Calibration.Table
