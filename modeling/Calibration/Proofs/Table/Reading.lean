import Calibration.Proofs.Table.Latest
import Calibration.Proofs.Table.Sections
import Calibration.Table.Reader

/-! # What a text says as a table

The lines of a text are read here all at once. A line that its section cannot file is a fault. Up to the
first fault, each store holds for every name what the last good line with that name files, and the first
fault alone decides how the reading ends. The reader, which takes in one line after another, comes to the
same result.
-/
namespace Calibration.Table
open Text
variable (ls : List (List Char))

/-- Line `i`, counted from 0, is no comment and stands in section `s`. -/
structure DataLine (i : Nat) (line : List Char) (s : Section) : Prop where
  is_line : ls[i]? = some line
  is_data : isComment line = false
  stands : StandsIn (ls.take i) s

def FiledAt (i : Nat) (e : Entry) : Prop := ∃ line s, DataLine ls i line s ∧ Files line s e

def FaultAt (i : Nat) (line : List Char) (s : Section) : Prop :=
  DataLine ls i line s ∧ ∀ e, ¬Files line s e

def FirstFault (k : Nat) (line : List Char) (s : Section) : Prop :=
  FaultAt ls k line s ∧ ∀ j line' s', FaultAt ls j line' s' → k ≤ j

/-- The tables hold the last entry of each name and section before line `n`. -/
structure Holds (t : Tables) (n : Nat) : Prop where
  default : t.default.Keeps (fun i name r => FiledAt ls i (.default name r)) n
  int4 : t.int4.Keeps (fun i name r => FiledAt ls i (.int4 name r)) n
  channelScales : t.channelScales.Keeps
    (fun i name v => v.name = name ∧ FiledAt ls i (.channelScales name v.scales)) n

/-- What the lines say. Lines are reported as counted from 1. -/
inductive Reading : Except TableError Parsed → Prop
  | complete {t : Tables} (hgood : ∀ k line s, ¬FaultAt ls k line s) (ht : Holds ls t ls.length) :
    Reading (.ok ⟨t, .complete⟩)
  | malformed {k : Nat} {line : List Char} (hk : FirstFault ls k line .default)
    (hshape : shape? line = none) : Reading (.error (.malformed (k + 1) (String.ofList line)))
  | truncated {k : Nat} {line : List Char} {s : Section} {t : Tables} (hk : FirstFault ls k line s)
    (hshape : s = .default → shape? line ≠ none) (ht : Holds ls t k) :
    Reading (.ok ⟨t, .truncated (k + 1) (String.ofList line)⟩)

variable {ls} {ls' : List (List Char)} {n : Nat}

theorem DataLine.unique {i : Nat} {line line' : List Char} {s s' : Section}
    (h : DataLine ls i line s) (h' : DataLine ls i line' s') : line = line' ∧ s = s' :=
  ⟨Option.some.inj (h.is_line.symm.trans h'.is_line), h.stands.unique h'.stands⟩

theorem FiledAt.unique {i : Nat} {e e' : Entry} (h : FiledAt ls i e) (h' : FiledAt ls i e') :
    e = e' := by
  obtain ⟨line, s, hline, he⟩ := h
  obtain ⟨line', s', hline', he'⟩ := h'
  obtain ⟨rfl, rfl⟩ := hline.unique hline'
  exact he.unique he'

theorem FirstFault.unique {k k' : Nat} {line line' : List Char} {s s' : Section}
    (h : FirstFault ls k line s) (h' : FirstFault ls k' line' s') :
    k = k' ∧ line = line' ∧ s = s' := by
  have hk : k = k' := Nat.le_antisymm (h.2 k' line' s' h'.1) (h'.2 k line s h.1)
  subst hk
  exact ⟨rfl, h.1.1.unique h'.1.1⟩

theorem Holds.unique {t t' : Tables} (h : Holds ls t n) (h' : Holds ls t' n) : t = t' := by
  obtain ⟨d, i, c⟩ := t
  obtain ⟨d', i', c'⟩ := t'
  obtain rfl : d = d' := h.default.unique h'.default
  obtain rfl : i = i' := h.int4.unique h'.int4
  obtain rfl : c = c' := h.channelScales.unique h'.channelScales
  rfl

theorem Reading.unique {r r' : Except TableError Parsed} (h : Reading ls r) (h' : Reading ls r') :
    r = r' := by
  cases h with
  | complete hgood ht =>
    cases h' with
    | complete _ ht' => rw [ht.unique ht']
    | malformed hk => exact absurd hk.1 (hgood _ _ _)
    | truncated hk => exact absurd hk.1 (hgood _ _ _)
  | malformed hk hshape =>
    cases h' with
    | complete hgood => exact absurd hk.1 (hgood _ _ _)
    | malformed hk' =>
      obtain ⟨rfl, rfl, -⟩ := hk.unique hk'
      rfl
    | truncated hk' hshape' =>
      obtain ⟨rfl, rfl, rfl⟩ := hk.unique hk'
      exact absurd hshape (hshape' rfl)
  | truncated hk hshape ht =>
    cases h' with
    | complete hgood => exact absurd hk.1 (hgood _ _ _)
    | malformed hk' hshape' =>
      obtain ⟨rfl, rfl, rfl⟩ := hk.unique hk'
      exact absurd hshape' (hshape rfl)
    | truncated hk' _ ht' =>
      obtain ⟨rfl, rfl, rfl⟩ := hk.unique hk'
      rw [ht.unique ht']

section Start

/-! Up to line `n` a reading depends on those lines alone. -/

variable (hls : ls.take n = ls'.take n)
include hls

theorem DataLine.of_take {i : Nat} (hi : i < n) {line : List Char} {s : Section}
    (h : DataLine ls i line s) : DataLine ls' i line s := by
  have hget : (ls.take n)[i]? = (ls'.take n)[i]? := by rw [hls]
  rw [List.getElem?_take_of_lt hi, List.getElem?_take_of_lt hi] at hget
  have htake : ls.take i = ls'.take i := by
    have hmin : min i n = i := by omega
    rw [← hmin, ← List.take_take, ← List.take_take, hls]
  exact ⟨hget ▸ h.is_line, h.is_data, htake ▸ h.stands⟩

theorem filedAt_iff_of_take {i : Nat} (hi : i < n) {e : Entry} :
    FiledAt ls i e ↔ FiledAt ls' i e := by
  constructor
  · rintro ⟨line, s, hline, he⟩
    exact ⟨line, s, hline.of_take hls hi, he⟩
  · rintro ⟨line, s, hline, he⟩
    exact ⟨line, s, hline.of_take hls.symm hi, he⟩

theorem FirstFault.of_take {k : Nat} (hk : k < n) {line : List Char} {s : Section}
    (h : FirstFault ls k line s) : FirstFault ls' k line s := by
  obtain ⟨⟨hline, hbad⟩, hfirst⟩ := h
  refine ⟨⟨hline.of_take hls hk, hbad⟩, ?_⟩
  rintro j line' s' ⟨hline', hbad'⟩
  rcases Nat.lt_or_ge j k with hj | hj
  · exact hfirst j line' s' ⟨hline'.of_take hls.symm (by omega), hbad'⟩
  · exact hj

theorem Holds.of_take {t : Tables} {k : Nat} (hk : k ≤ n) (h : Holds ls t k) : Holds ls' t k where
  default := h.default.congr fun i hi name r => filedAt_iff_of_take hls (by omega)
  int4 := h.int4.congr fun i hi name r => filedAt_iff_of_take hls (by omega)
  channelScales := h.channelScales.congr fun i hi name v =>
    and_congr_right fun _ => filedAt_iff_of_take hls (by omega)

end Start

/-- Lines after the first fault say nothing. -/
theorem Reading.of_take {k : Nat} {line : List Char} {s : Section} (hk : FirstFault ls k line s)
    (hls : ls.take (k + 1) = ls'.take (k + 1)) {r : Except TableError Parsed} (h : Reading ls r) :
    Reading ls' r := by
  cases h with
  | complete hgood => exact absurd hk.1 (hgood _ _ _)
  | malformed hk' hshape =>
    obtain ⟨rfl, rfl, rfl⟩ := hk.unique hk'
    exact .malformed (hk.of_take hls k.lt_succ_self) hshape
  | truncated hk' hshape ht =>
    obtain ⟨rfl, rfl, rfl⟩ := hk.unique hk'
    exact .truncated (hk.of_take hls k.lt_succ_self) hshape (ht.of_take hls k.le_succ)

theorem Holds.empty : Holds ls .empty 0 := ⟨NameMap.keeps_empty, NameMap.keeps_empty, NameMap.keeps_empty⟩

theorem Holds.skip {t : Tables} (h : Holds ls t n) (hn : ∀ e, ¬FiledAt ls n e) :
    Holds ls t (n + 1) where
  default := h.default.skip fun _ _ => hn _
  int4 := h.int4.skip fun _ _ => hn _
  channelScales := h.channelScales.skip fun _ _ hv => hn _ hv.2

theorem Holds.file {t : Tables} {e : Entry} (h : Holds ls t n) (he : FiledAt ls n e) :
    Holds ls (fileEntry t e) (n + 1) := by
  cases e with
  | default name r =>
    refine ⟨h.default.insert he fun name' r' h' => ?_, h.int4.skip fun _ _ h' => ?_,
      h.channelScales.skip fun _ _ h' => ?_⟩
    · cases he.unique h'
      exact ⟨rfl, rfl⟩
    · cases he.unique h'
    · cases he.unique h'.2
  | int4 name r =>
    refine ⟨h.default.skip fun _ _ h' => ?_, h.int4.insert he fun name' r' h' => ?_,
      h.channelScales.skip fun _ _ h' => ?_⟩
    · cases he.unique h'
    · cases he.unique h'
      exact ⟨rfl, rfl⟩
    · cases he.unique h'.2
  | channelScales name scales =>
    refine ⟨h.default.skip fun _ _ h' => ?_, h.int4.skip fun _ _ h' => ?_,
      h.channelScales.insert ⟨rfl, he⟩ ?_⟩
    · cases he.unique h'
    · cases he.unique h'
    · rintro name' ⟨own, scales'⟩ ⟨hown, h'⟩
      cases he.unique h'
      subst hown
      exact ⟨rfl, rfl⟩

namespace Reader

/-- The first `n` lines are read, and none of them was at fault. -/
structure ReadTo (ls : List (List Char)) (n : Nat) (r : Reader) : Prop where
  length : n ≤ ls.length
  mode : StandsIn (ls.take n) r.mode
  line : r.line = n
  tables : Holds ls r.tables n
  status : r.status = .complete
  good : ∀ k < n, ∀ line s, ¬FaultAt ls k line s

inductive Fed (ls : List (List Char)) (n : Nat) : Reader × Except TableError Step → Prop
  | proceed {r : Reader} (h : r.ReadTo ls (n + 1)) : Fed ls n (r, .ok .proceed)
  | stop {r : Reader} (h : Reading ls (.ok r.parsed)) : Fed ls n (r, .ok .stop)
  | malformed {r : Reader} {e : TableError} (h : Reading ls (.error e)) : Fed ls n (r, .error e)

variable {r : Reader}

theorem readTo_start : start.ReadTo ls 0 where
  length := ls.length.zero_le
  mode := by simpa [start] using StandsIn.nil
  line := rfl
  tables := .empty
  status := rfl
  good := fun k hk => absurd hk k.not_lt_zero

theorem ReadTo.firstFault (h : r.ReadTo ls n) {line : List Char} {s : Section}
    (hfault : FaultAt ls n line s) : FirstFault ls n line s := by
  refine ⟨hfault, fun j line' s' hj => ?_⟩
  rcases Nat.lt_or_ge j n with hlt | hge
  · exact absurd hj (h.good j hlt line' s')
  · exact hge

/-- A good line, read in front of the others. -/
theorem ReadTo.next (h : r.ReadTo ls n) {line : List Char} (hline : ls[n]? = some line)
    {mode : Section} {tables : Tables} (hmode : StandsIn (ls.take n ++ [line]) mode)
    (htables : Holds ls tables (n + 1)) (hgood : ∀ line s, ¬FaultAt ls n line s) :
    (⟨mode, r.line + 1, tables, r.status⟩ : Reader).ReadTo ls (n + 1) where
  length := (List.getElem?_eq_some_iff.1 hline).1
  mode := by simpa [List.take_add_one, hline] using hmode
  line := by simp [h.line]
  tables := htables
  status := h.status
  good := by
    intro k hk
    rcases Nat.lt_succ_iff_lt_or_eq.1 hk with hk | rfl
    · exact h.good k hk
    · exact hgood

/-- The step of the reader against the lines read all at once. -/
theorem ReadTo.fed (h : r.ReadTo ls n) {raw : String} (hline : ls[n]? = some (content raw)) :
    Fed ls n (r.feed raw) := by
  have hjudged := r.mode.judged (content raw)
  have hdata (hd : isComment (content raw) = false) : DataLine ls n (content raw) r.mode :=
    ⟨hline, hd, h.mode⟩
  have hfault (hd : isComment (content raw) = false) (hbad : ∀ e, ¬Files (content raw) r.mode e) :
      FirstFault ls n (content raw) r.mode := h.firstFault ⟨hdata hd, hbad⟩
  have hopen : r.status.isTruncated = false := by
    rw [h.status]
    rfl
  simp only [feed, hopen, Bool.false_eq_true, if_false]
  generalize r.mode.judge (content raw) = verdict at hjudged
  cases hjudged with
  | comment hc =>
    have hnone {line : List Char} {s : Section} (hl : DataLine ls n line s) : False := by
      cases hline.symm.trans hl.is_line
      simp [hl.is_data] at hc
    refine .proceed (h.next hline (h.mode.comment hc) (h.tables.skip ?_) ?_)
    · rintro e ⟨line, s, hl, -⟩
      exact hnone hl
    · rintro line s ⟨hl, -⟩
      exact hnone hl
  | @entry e hd he =>
    refine .proceed (h.next hline (h.mode.data hd) (h.tables.file ⟨_, _, hdata hd, he⟩) ?_)
    rintro line s ⟨hl, hbad⟩
    obtain ⟨rfl, rfl⟩ := (hdata hd).unique hl
    exact hbad e he
  | cut hd hbad hshape =>
    have hcut := Reading.truncated (hfault hd hbad) hshape h.tables
    rw [← h.line] at hcut
    exact .stop hcut
  | malformed hd hbad hs hshape =>
    rw [h.line]
    exact .malformed (.malformed (hs ▸ hfault hd hbad) hshape)

/-- The run of the reader against the lines read all at once. -/
theorem ReadTo.run (h : r.ReadTo ls n) {raws : List String} (hls : ls.drop n = raws.map content) :
    Reading ls ((r.run (raws.map .ok)).map parsed) := by
  induction raws generalizing r n with
  | nil =>
    have hn : ls.length = n := Nat.le_antisymm (List.drop_eq_nil_iff.1 hls) h.length
    have hgood (k : Nat) (line : List Char) (s : Section) : ¬FaultAt ls k line s := by
      intro hfault
      have hk := (List.getElem?_eq_some_iff.1 hfault.1.is_line).1
      exact h.good k (hn ▸ hk) line s hfault
    have hcomplete := Reading.complete hgood (hn ▸ h.tables)
    rw [← h.status] at hcomplete
    exact hcomplete
  | cons raw raws ih =>
    have hline : ls[n]? = some (content raw) := by
      rw [← List.head?_drop, hls]
      rfl
    have hrest : ls.drop (n + 1) = raws.map content := by
      rw [← List.tail_drop, hls]
      rfl
    have hfed := h.fed hline
    rw [List.map_cons, Reader.run]
    generalize r.feed raw = out at hfed
    cases hfed with
    | proceed hnext => exact ih hnext hrest
    | stop hr => exact hr
    | malformed hr => exact hr

end Reader

def judgedLines (text : String) : List (List Char) := (lines text).map Reader.content

theorem judgedLines_eq (text : String) :
    judgedLines text = (splitLines '\n' '\r' text.toList).map (dropFinal '\r') := by
  rw [judgedLines, lines, List.map_map]
  refine List.map_congr_left fun line _ => ?_
  rw [Function.comp_apply, Reader.content, String.toList_ofList]

theorem reading_parseText (text : String) : Reading (judgedLines text) (parseText text) :=
  Reader.readTo_start.run rfl

/-- Reading line by line gives what the lines say taken together, and what comes after the first fault
does not count. -/
theorem parseText_iff_reading (text : String) :
    (∀ r, parseText text = r ↔ Reading (judgedLines text) r) ∧
    ∀ k line s, FirstFault (judgedLines text) k line s → ∀ text',
      (judgedLines text').take (k + 1) = (judgedLines text).take (k + 1) →
        parseText text' = parseText text := by
  have hreading := reading_parseText text
  constructor
  · intro r
    constructor
    · rintro rfl
      exact hreading
    · exact hreading.unique
  · intro k line s hk text' hstart
    exact (reading_parseText text').unique (hreading.of_take hk hstart.symm)

/-- A line without numbers after the marker for four bits hides a record that follows it. -/
theorem parseText_of_fault_after_marker :
    FirstFault (judgedLines "#int4_th\nw1 onlytwo\n") 1 "w1 onlytwo".toList .int4 ∧
    (judgedLines "#int4_th\nw1 onlytwo\nw2 1 -1 1\n").take 2 =
      (judgedLines "#int4_th\nw1 onlytwo\n").take 2 ∧
    parseText "#int4_th\nw1 onlytwo\nw2 1 -1 1\n" = parseText "#int4_th\nw1 onlytwo\n" := by
  have hlines : judgedLines "#int4_th\nw1 onlytwo\n" = ["#int4_th".toList, "w1 onlytwo".toList] := by
    decide
  have hsection : StandsIn ["#int4_th".toList] .int4 := StandsIn.nil.comment rfl
  have hfirst : FirstFault (judgedLines "#int4_th\nw1 onlytwo\n") 1 "w1 onlytwo".toList .int4 := by
    rw [hlines]
    constructor
    · refine ⟨⟨rfl, rfl, hsection⟩, fun e he => ?_⟩
      cases he with
      | int4 hr => cases hr
    · rintro (_ | j) line s ⟨hline, -⟩
      · cases hline.is_line
        cases hline.is_data
      · omega
  have hsame : (judgedLines "#int4_th\nw1 onlytwo\nw2 1 -1 1\n").take 2 =
      (judgedLines "#int4_th\nw1 onlytwo\n").take 2 := by
    rw [hlines]
    decide
  exact ⟨hfirst, hsame, (parseText_iff_reading _).2 1 _ _ hfirst _ hsame⟩

end Calibration.Table
