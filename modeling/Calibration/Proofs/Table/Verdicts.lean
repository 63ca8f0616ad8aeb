import Calibration.Proofs.Table.Sections
import Calibration.Table.Reader

/-! # What one line does

A line that is fed to an open reader either files an entry or cuts the table, or it does neither. Which it is does
not depend on what was read before, but for the section.
-/
namespace Calibration.Table

/-- A table with one entry tells which. -/
theorem fileEntry_empty_injective : Function.Injective (fileEntry .empty) := by
  intro e e' h
  have hdefault := congrArg (fun t => t.default.entries) h
  have hint4 := congrArg (fun t => t.int4.entries) h
  have hscales := congrArg (fun t => t.channelScales.entries) h
  cases e with
  | default name r => cases e' with
    | default => cases hdefault; rfl
    | int4 => cases hdefault
    | channelScales => cases hdefault
  | int4 name r => cases e' with
    | default => cases hdefault
    | int4 => cases hint4; rfl
    | channelScales => cases hint4
  | channelScales name r => cases e' with
    | default => cases hdefault
    | int4 => cases hint4
    | channelScales => cases hscales; rfl

theorem fileEntry_empty_ne (e : Entry) : fileEntry .empty e ≠ .empty := by
  intro h
  cases e with
  | default => cases congrArg (fun t => t.default.entries) h
  | int4 => cases congrArg (fun t => t.int4.entries) h
  | channelScales => cases congrArg (fun t => t.channelScales.entries) h

namespace Reader

/-- Whatever was read before, `raw` files `e` in section `s`. -/
def Stores (s : Section) (raw : String) (e : Entry) : Prop :=
  ∀ r : Reader, r.mode = s → r.status = .complete →
    r.feed raw = ({ r with line := r.line + 1, tables := fileEntry r.tables e }, .ok .proceed)

/-- Whatever was read before, `raw` cuts the table in section `s` and files nothing. -/
def Cuts (s : Section) (raw : String) : Prop :=
  ∀ r : Reader, r.mode = s → r.status = .complete →
    r.feed raw = ({ r with
      line := r.line + 1
      status := .truncated (r.line + 1) (String.ofList (content raw)) }, .ok .stop)

variable {s : Section} {raw : String} {e : Entry}

/-- A line stores an entry exactly if it is judged to. -/
theorem stores_iff : Stores s raw e ↔ s.judge (content raw) = .entry e := by
  constructor
  · intro h
    have hfed := h ⟨s, 0, .empty, .complete⟩ rfl rfl
    simp only [feed, Status.isTruncated, Bool.false_eq_true, if_false] at hfed
    cases hjudge : s.judge (content raw) with
    | comment next =>
      simp only [hjudge] at hfed
      exact absurd (congrArg (fun out => out.1.tables) hfed).symm (fileEntry_empty_ne e)
    | entry e' =>
      simp only [hjudge] at hfed
      rw [fileEntry_empty_injective (congrArg (fun out => out.1.tables) hfed)]
    | cut | malformed =>
      simp only [hjudge] at hfed
      cases congrArg Prod.snd hfed
  · rintro h r rfl hs
    simp [feed, hs, Status.isTruncated, h]

theorem cuts_iff : Cuts s raw ↔ s.judge (content raw) = .cut := by
  constructor
  · intro h
    have hanswer := congrArg Prod.snd (h ⟨s, 0, .empty, .complete⟩ rfl rfl)
    simp only [feed, Status.isTruncated, Bool.false_eq_true, if_false] at hanswer
    cases hjudge : s.judge (content raw) with
    | cut => rfl
    | comment | entry | malformed =>
      simp only [hjudge] at hanswer
      cases hanswer
  · rintro h r rfl hs
    simp [feed, hs, Status.isTruncated, h]

section Answer
variable {r : Reader} (hs : r.status = .complete)
include hs

theorem judge_of_proceed (hdata : isComment (content raw) = false) (h : (r.feed raw).2 = .ok .proceed) :
    ∃ e, r.mode.judge (content raw) = .entry e := by
  have hopen : r.status.isTruncated = false := congrArg Status.isTruncated hs
  have hjudged := r.mode.judged (content raw)
  simp only [feed, hopen, Bool.false_eq_true, if_false] at h
  generalize r.mode.judge (content raw) = verdict at h hjudged
  cases hjudged with
  | comment hline => simp [hdata] at hline
  | entry => exact ⟨_, rfl⟩
  | cut | malformed => cases h

theorem judge_of_stop (h : (r.feed raw).2 = .ok .stop) : r.mode.judge (content raw) = .cut := by
  have hopen : r.status.isTruncated = false := congrArg Status.isTruncated hs
  simp only [feed, hopen, Bool.false_eq_true, if_false] at h
  generalize r.mode.judge (content raw) = verdict at h
  cases verdict with
  | cut => rfl
  | comment | entry | malformed => cases h

end Answer

theorem judge_of_error {r : Reader} {e : TableError} (h : (r.feed raw).2 = .error e) :
    r.mode.judge (content raw) = .malformed := by
  simp only [feed] at h
  split at h
  · cases h
  · generalize r.mode.judge (content raw) = verdict at h
    cases verdict with
    | malformed => rfl
    | comment | entry | cut => cases h

end Reader
end Calibration.Table
