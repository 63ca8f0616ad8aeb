import Calibration.Proofs.Table.Sections
import Calibration.Proofs.Text.Lines
import Calibration.Table.Reader

/-! # Feeding on after errors and stops

A reader may be fed on whatever it has answered. A malformed line costs it nothing but a number, and the line
that cuts the table is the last one to change it. So the tables and the ending are those of the lines that were
not malformed; only the number of the line that cuts also counts the malformed ones before it.
-/
namespace Calibration.Table
open Text

def Section.rank : Section → Nat
  | .default => 0
  | .int4 => 1
  | .weightScale => 2

theorem Section.rank_le_afterComment (s : Section) (comment : List Char) :
    s.rank ≤ (s.afterComment comment).rank := by
  cases s with
  | weightScale => exact Nat.le_refl _
  | default | int4 =>
    simp only [afterComment]
    split
    · decide
    · split <;> decide

def ReturnDropped (raw : String) (line : List Char) : Prop :=
  raw.toList = line ++ ['\r'] ∨ raw.toList = line ∧ line.getLast? ≠ some '\r'

theorem Status.complete_or_truncated (s : Status) : s = .complete ∨ s.isTruncated = true := by
  cases s with
  | complete => exact .inl rfl
  | truncated => exact .inr rfl

/-- The ending of a reading that had `k` more lines before it. -/
def Status.delayed (k : Nat) : Status → Status
  | .complete => .complete
  | .truncated line content => .truncated (line + k) content

theorem Status.isTruncated_delayed (k : Nat) (s : Status) :
    (s.delayed k).isTruncated = s.isTruncated := by
  cases s <;> rfl

namespace Reader

theorem returnDropped_content (raw : String) : ReturnDropped raw (content raw) := by
  by_cases hret : raw.toList.getLast? = some '\r'
  · obtain ⟨line, hline⟩ := List.getLast?_eq_some_iff.1 hret
    rw [content, hline, dropFinal_append_self]
    exact .inl hline
  · rw [content, dropFinal_of_getLast?_ne hret]
    exact .inr ⟨rfl, hret⟩

/-- The reader after these lines, whatever it has answered to each. -/
def fedAll (r : Reader) (raws : List String) : Reader := raws.foldl (fun r raw => (r.feed raw).1) r

def answers (r : Reader) : List String → List (Except TableError Step)
  | [] => []
  | raw :: raws => (r.feed raw).2 :: (r.feed raw).1.answers raws

def accepted (r : Reader) (raws : List String) : List String :=
  ((raws.zip (r.answers raws)).filter fun p => p.2.isOk).map Prod.fst

def errorCount (r : Reader) (raws : List String) : Nat :=
  (r.answers raws).countP fun answer => !answer.isOk

def delayed (k : Nat) (r : Reader) : Reader := ⟨r.mode, r.line + k, r.tables, r.status.delayed k⟩

inductive Feeds (r : Reader) (raw : String) : Reader × Except TableError Step → Prop
  | frozen (hs : r.status.isTruncated = true) : Feeds r raw (r, .ok .stop)
  | comment (hs : r.status = .complete) :
    Feeds r raw ({ r with line := r.line + 1, mode := r.mode.afterComment (content raw) }, .ok .proceed)
  | entry {e : Entry} (hs : r.status = .complete) :
    Feeds r raw ({ r with line := r.line + 1, tables := fileEntry r.tables e }, .ok .proceed)
  | cut (hs : r.status = .complete) :
    Feeds r raw ({ r with
      line := r.line + 1
      status := .truncated (r.line + 1) (String.ofList (content raw)) }, .ok .stop)
  | malformed (hs : r.status = .complete) (hmode : r.mode = .default) :
    Feeds r raw ({ r with line := r.line + 1 },
      .error (.malformed (r.line + 1) (String.ofList (content raw))))

theorem feed_of_truncated {r : Reader} (h : r.status.isTruncated = true) (raw : String) :
    r.feed raw = (r, .ok .stop) := if_pos h

/-- What feeding a line comes to is one of the cases. -/
theorem feeds (r : Reader) (raw : String) : r.Feeds raw (r.feed raw) := by
  rcases r.status.complete_or_truncated with hs | ht
  · have hopen : r.status.isTruncated = false := congrArg Status.isTruncated hs
    have hjudged := r.mode.judged (content raw)
    simp only [feed, hopen, Bool.false_eq_true, if_false]
    generalize r.mode.judge (content raw) = verdict at hjudged
    cases hjudged with
    | comment _ => exact .comment hs
    | entry _ _ => exact .entry hs
    | cut _ _ _ => exact .cut hs
    | malformed _ _ hmode _ => exact .malformed hs hmode
  · rw [feed_of_truncated ht]
    exact .frozen ht

section Step
variable (r : Reader) (raw : String)

theorem rank_le_feed : r.mode.rank ≤ (r.feed raw).1.mode.rank := by
  have hfeeds := r.feeds raw
  generalize r.feed raw = out at hfeeds
  cases hfeeds with
  | comment => exact Section.rank_le_afterComment _ _
  | frozen | entry | cut | malformed => exact Nat.le_refl _

variable {r raw} {next : Reader}

theorem Feeds.of_error {e : TableError} (h : r.Feeds raw (next, .error e)) :
    r.status = .complete ∧ r.mode = .default ∧ next = { r with line := r.line + 1 } ∧
      e = .malformed (r.line + 1) (String.ofList (content raw)) := by
  cases h with
  | malformed hs hmode => exact ⟨hs, hmode, rfl, rfl⟩

theorem Feeds.of_stop (h : r.Feeds raw (next, .ok .stop)) (hs : r.status = .complete) :
    next = { r with
      line := r.line + 1
      status := .truncated (r.line + 1) (String.ofList (content raw)) } := by
  cases h with
  | frozen ht =>
    rw [hs] at ht
    cases ht
  | cut => rfl

theorem Feeds.complete_of_ne_stop {out : Reader × Except TableError Step} (h : r.Feeds raw out)
    (hs : r.status = .complete) (hstop : out.2 ≠ .ok .stop) : out.1.status = .complete := by
  cases h with
  | frozen | cut => exact absurd rfl hstop
  | comment | entry | malformed => exact hs

/-- Lines are counted while the table is open. -/
theorem Feeds.line_of_complete {out : Reader × Except TableError Step} (h : r.Feeds raw out)
    (hs : out.1.status = .complete) : out.1.line = r.line + 1 := by
  cases h with
  | frozen ht =>
    rw [hs] at ht
    cases ht
  | cut => cases hs
  | comment | entry | malformed => rfl

end Step

section Run

/-- No section is entered again after a later one. -/
theorem rank_le_fedAll (r : Reader) (raws : List String) : r.mode.rank ≤ (r.fedAll raws).mode.rank := by
  induction raws generalizing r with
  | nil => exact Nat.le_refl _
  | cons raw raws ih => exact Nat.le_trans (r.rank_le_feed raw) (ih (r.feed raw).1)

theorem fedAll_append (r : Reader) (raws raws' : List String) :
    r.fedAll (raws ++ raws') = (r.fedAll raws).fedAll raws' := List.foldl_append

variable {r : Reader} {raws : List String}

/-- A cut table is never changed again. -/
theorem fedAll_of_truncated (h : r.status.isTruncated = true) : r.fedAll raws = r := by
  induction raws with
  | nil => rfl
  | cons raw raws ih =>
    change (r.feed raw).1.fedAll raws = r
    rw [feed_of_truncated h]
    exact ih

theorem answers_of_truncated (h : r.status.isTruncated = true) :
    r.answers raws = raws.map fun _ => .ok .stop := by
  induction raws with
  | nil => rfl
  | cons raw raws ih => rw [answers, feed_of_truncated h, ih, List.map_cons]

theorem complete_of_no_stop (hs : r.status = .complete) (hstop : .ok .stop ∉ r.answers raws) :
    (r.fedAll raws).status = .complete := by
  induction raws generalizing r with
  | nil => exact hs
  | cons raw raws ih =>
    rw [answers, List.mem_cons, not_or] at hstop
    apply ih
    · exact (r.feeds raw).complete_of_ne_stop hs (Ne.symm hstop.1)
    · exact hstop.2

/-- A reader whose table is still open has counted all lines. -/
theorem line_fedAll (h : (r.fedAll raws).status = .complete) :
    (r.fedAll raws).line = r.line + raws.length := by
  induction raws generalizing r with
  | nil => rfl
  | cons raw raws ih =>
    change ((r.feed raw).1.fedAll raws).status = .complete at h
    have hopen : (r.feed raw).1.status = .complete := by
      refine (r.feed raw).1.status.complete_or_truncated.resolve_right fun ht => ?_
      rw [fedAll_of_truncated ht] at h
      rw [h] at ht
      cases ht
    change ((r.feed raw).1.fedAll raws).line = _
    rw [ih h, (r.feeds raw).line_of_complete hopen, List.length_cons]
    omega

theorem line_fedAll_start (h : (start.fedAll raws).status = .complete) :
    (start.fedAll raws).line = raws.length :=
  (line_fedAll h).trans (Nat.zero_add _)

end Run

section Delay
variable (k : Nat) (r : Reader)

theorem delayed_zero : r.delayed 0 = r := by
  cases r with
  | mk mode line tables status => cases status <;> rfl

theorem delayed_delayed (l : Nat) : (r.delayed k).delayed l = r.delayed (k + l) := by
  cases r with
  | mk mode line tables status => cases status <;> simp [delayed, Status.delayed, Nat.add_assoc]

/-- Which lines have been counted shows in line numbers only. -/
theorem feed_delayed (raw : String) : ((r.delayed k).feed raw).1 = (r.feed raw).1.delayed k := by
  rcases r.status.complete_or_truncated with hs | ht
  · have hs' : (r.delayed k).status = .complete := by
      rw [delayed, hs]
      rfl
    have hline : (r.delayed k).line + 1 = r.line + 1 + k := Nat.add_right_comm r.line k 1
    have hmode : (r.delayed k).mode = r.mode := rfl
    simp only [feed, hs, hs', hmode, hline, Status.isTruncated, Bool.false_eq_true, if_false]
    cases r.mode.judge (content raw) <;> rfl
  · have ht' : (r.delayed k).status.isTruncated = true := (Status.isTruncated_delayed k _).trans ht
    rw [feed_of_truncated ht, feed_of_truncated ht']

theorem fedAll_delayed (raws : List String) :
    (r.delayed k).fedAll raws = (r.fedAll raws).delayed k := by
  induction raws generalizing r with
  | nil => rfl
  | cons raw raws ih =>
    change ((r.delayed k).feed raw).1.fedAll raws = ((r.feed raw).1.fedAll raws).delayed k
    rw [feed_delayed, ih]

variable {r}

/-- A malformed line leaves what it would have left had it not been fed, but for its number. -/
theorem Feeds.delayed_of_error {raw : String} {next : Reader} {e : TableError}
    (h : r.Feeds raw (next, .error e)) : next = r.delayed 1 := by
  obtain ⟨hs, -, rfl, -⟩ := h.of_error
  rw [delayed, hs]
  rfl

variable (r)

theorem accepted_cons (raw : String) (raws : List String) : r.accepted (raw :: raws) =
    (if (r.feed raw).2.isOk then [raw] else []) ++ (r.feed raw).1.accepted raws := by
  simp only [accepted, answers, List.zip_cons_cons, List.filter_cons]
  split <;> rfl

theorem errorCount_cons (raw : String) (raws : List String) : r.errorCount (raw :: raws) =
    (r.feed raw).1.errorCount raws + if (r.feed raw).2.isOk then 0 else 1 := by
  simp only [errorCount, answers, List.countP_cons]
  cases (r.feed raw).2 <;> rfl

/-- The reader after all lines is the one after those that are not malformed, with more lines counted. -/
theorem fedAll_accepted (raws : List String) :
    r.fedAll raws = (r.fedAll (r.accepted raws)).delayed (r.errorCount raws) := by
  induction raws generalizing r with
  | nil => exact r.delayed_zero.symm
  | cons raw raws ih =>
    have hfirst : r.fedAll (raw :: raws) = (r.feed raw).1.fedAll raws := rfl
    rw [hfirst, ih, accepted_cons, errorCount_cons]
    have hfeeds := r.feeds raw
    cases hout : r.feed raw with
    | mk next answer =>
      rw [hout] at hfeeds
      cases answer with
      | ok step =>
        have hsame : r.fedAll (raw :: next.accepted raws) = next.fedAll (next.accepted raws) := by
          change (r.feed raw).1.fedAll _ = _
          rw [hout]
        simp only [Except.isOk, Except.toBool, if_true, List.singleton_append, Nat.add_zero, hsame]
      | error e =>
        have hnext (xs : List String) : next.fedAll xs = (r.fedAll xs).delayed 1 := by
          rw [hfeeds.delayed_of_error, fedAll_delayed]
        simp only [Except.isOk, Except.toBool, Bool.false_eq_true, if_false, List.nil_append]
        rw [hnext, delayed_delayed, Nat.add_comm]

end Delay

/-- Whatever lines a new reader is fed: it never goes back to an earlier section. A line that is an error is
met in the first section and changes nothing but the line number. The first line that is answered by a stop is
recorded with the number of lines fed so far and changes neither section nor tables; after it nothing changes
any more. And the table in the end is that of the lines that are no errors, which are all counted. -/
theorem feeding_in_sequence :
    (∀ before after : List String,
      (start.fedAll before).mode.rank ≤ (start.fedAll (before ++ after)).mode.rank) ∧
    (∀ before raw next e, (start.fedAll before).feed raw = (next, .error e) →
      (start.fedAll before).mode = .default ∧
      next = { start.fedAll before with line := before.length + 1 } ∧
      ∃ line, ReturnDropped raw line ∧ e = .malformed (before.length + 1) (String.ofList line)) ∧
    (∀ before raw next, .ok .stop ∉ start.answers before →
      (start.fedAll before).feed raw = (next, .ok .stop) →
      (∃ line, ReturnDropped raw line ∧ next = { start.fedAll before with
        line := before.length + 1
        status := .truncated (before.length + 1) (String.ofList line) }) ∧
      ∀ after, next.answers after = after.map (fun _ => .ok .stop) ∧ next.fedAll after = next) ∧
    ∀ raws, (start.fedAll raws).parsed =
      ⟨(start.fedAll (start.accepted raws)).parsed.tables,
        (start.fedAll (start.accepted raws)).parsed.status.delayed (start.errorCount raws)⟩ := by
  refine ⟨?_, ?_, ?_, ?_⟩
  · intro before after
    rw [fedAll_append]
    exact rank_le_fedAll _ after
  · intro before raw next e h
    have hfeeds := (start.fedAll before).feeds raw
    rw [h] at hfeeds
    obtain ⟨hs, hmode, hnext, he⟩ := hfeeds.of_error
    rw [line_fedAll_start hs] at hnext he
    exact ⟨hmode, hnext, content raw, returnDropped_content raw, he⟩
  · intro before raw next hstop h
    have hs : (start.fedAll before).status = .complete := complete_of_no_stop rfl hstop
    have hfeeds := (start.fedAll before).feeds raw
    rw [h] at hfeeds
    have hnext := hfeeds.of_stop hs
    rw [line_fedAll_start hs] at hnext
    have ht : next.status.isTruncated = true := by
      rw [hnext]
      rfl
    refine ⟨⟨content raw, returnDropped_content raw, hnext⟩, ?_⟩
    intro after
    exact ⟨answers_of_truncated ht, fedAll_of_truncated ht⟩
  · intro raws
    exact congrArg parsed (start.fedAll_accepted raws)

/-- The malformed second line does not count for the table, and still the blank line that ends it is the
fifth. -/
theorem feeding_in_sequence_malformed_then_blank : ∃ r stopped : Reader,
    (start.fedAll ["# net"]).feed "bad\r" = (r, .error (.malformed 2 "bad")) ∧
    r = { start.fedAll ["# net"] with line := 2 } ∧
    (start.fedAll ["# net", "bad\r", "#weight_scale", "w 0"]).feed " \r" = (stopped, .ok .stop) ∧
    stopped.tables = Tables.empty.insertChannelScales "w" [] ∧
    stopped.status = .truncated 5 " " ∧ stopped.fedAll ["v 0"] = stopped ∧
    (start.fedAll ["# net", "bad\r", "#weight_scale", "w 0", " \r", "v 0"]).parsed.status =
      (start.fedAll ["# net", "#weight_scale", "w 0", " \r", "v 0"]).parsed.status.delayed 1 := by
  obtain ⟨-, herror, hstop, hparsed⟩ := feeding_in_sequence
  have hbad : (start.fedAll ["# net"]).feed "bad\r" =
    (start.fedAll ["# net", "bad\r"], .error (.malformed 2 "bad")) := rfl
  have hblank : (start.fedAll ["# net", "bad\r", "#weight_scale", "w 0"]).feed " \r" =
    (start.fedAll ["# net", "bad\r", "#weight_scale", "w 0", " \r"], .ok .stop) := rfl
  have hanswers : start.answers ["# net", "bad\r", "#weight_scale", "w 0"] =
    [.ok .proceed, .error (.malformed 2 "bad"), .ok .proceed, .ok .proceed] := rfl
  have hopen : .ok .stop ∉ start.answers ["# net", "bad\r", "#weight_scale", "w 0"] := by
    simp [hanswers]
  obtain ⟨-, hnext, -⟩ := herror _ _ _ _ hbad
  obtain ⟨⟨line, -, hcut⟩, hafter⟩ := hstop _ _ _ hopen hblank
  have hall := congrArg Parsed.status
    (hparsed ["# net", "bad\r", "#weight_scale", "w 0", " \r", "v 0"])
  refine ⟨_, _, hbad, hnext, hblank, ?_, rfl, (hafter ["v 0"]).2, hall⟩
  rw [hcut]
  rfl

end Reader
end Calibration.Table
