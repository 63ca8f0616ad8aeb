import Calibration.Table.Section

/-! # The section of a line

Where a line stands is told by the comments before it, all of them at once: the channel scales begin
with the first comment that carries their marker, wherever the marker for four bits was. A line is good
when its section can file it.
-/
namespace Calibration.Table

theorem carries_eq_true_iff {marker cs : List Char} : carries marker cs = true ↔ marker <:+: cs := by
  induction cs with
  | nil => simp [carries]
  | cons c cs ih => simp [carries, ih, List.infix_cons_iff]

def Marked (marker : List Char) (earlier : List (List Char)) : Prop :=
  ∃ line ∈ earlier, isComment line = true ∧ marker <:+: line

theorem marked_append {marker line : List Char} {earlier : List (List Char)} :
    Marked marker (earlier ++ [line]) ↔
      Marked marker earlier ∨ isComment line = true ∧ carries marker line = true := by
  rw [carries_eq_true_iff]
  constructor
  · rintro ⟨l, hl, h⟩
    rcases List.mem_append.1 hl with hl | hl
    · exact .inl ⟨l, hl, h⟩
    · exact .inr (List.mem_singleton.1 hl ▸ h)
  · rintro (⟨l, hl, h⟩ | h)
    · exact ⟨l, List.mem_append_left _ hl, h⟩
    · exact ⟨line, List.mem_append_right _ List.mem_cons_self, h⟩

/-- A line after these stands in this section. -/
inductive StandsIn (earlier : List (List Char)) : Section → Prop
  | default (hw : ¬Marked weightScaleMarker earlier) (h4 : ¬Marked int4Marker earlier) :
    StandsIn earlier .default
  | int4 (hw : ¬Marked weightScaleMarker earlier) (h4 : Marked int4Marker earlier) :
    StandsIn earlier .int4
  | weightScale (hw : Marked weightScaleMarker earlier) : StandsIn earlier .weightScale

theorem StandsIn.nil : StandsIn [] .default :=
  .default (fun h => by simp [Marked] at h) (fun h => by simp [Marked] at h)

theorem StandsIn.unique {earlier : List (List Char)} {s s' : Section} (h : StandsIn earlier s)
    (h' : StandsIn earlier s') : s = s' := by
  cases h <;> cases h' <;> first | rfl | contradiction

theorem StandsIn.comment {earlier : List (List Char)} {s : Section} {line : List Char}
    (h : StandsIn earlier s) (hline : isComment line = true) :
    StandsIn (earlier ++ [line]) (s.afterComment line) := by
  have hmarked (marker : List Char) : Marked marker (earlier ++ [line]) ↔
      Marked marker earlier ∨ carries marker line = true := by
    simp [marked_append, hline]
  cases h with
  | default hn hn4 =>
    cases hw : carries weightScaleMarker line with
    | true => simpa [Section.afterComment, hw] using StandsIn.weightScale ((hmarked _).2 (.inr hw))
    | false =>
      have hn' : ¬Marked weightScaleMarker (earlier ++ [line]) := by simp [hmarked, hn, hw]
      cases h4 : carries int4Marker line with
      | true => simpa [Section.afterComment, hw, h4] using StandsIn.int4 hn' ((hmarked _).2 (.inr h4))
      | false =>
        have hn4' : ¬Marked int4Marker (earlier ++ [line]) := by simp [hmarked, hn4, h4]
        simpa [Section.afterComment, hw, h4] using StandsIn.default hn' hn4'
  | int4 hn hm4 =>
    cases hw : carries weightScaleMarker line with
    | true => simpa [Section.afterComment, hw] using StandsIn.weightScale ((hmarked _).2 (.inr hw))
    | false =>
      have hn' : ¬Marked weightScaleMarker (earlier ++ [line]) := by simp [hmarked, hn, hw]
      simpa [Section.afterComment, hw] using StandsIn.int4 hn' ((hmarked _).2 (.inl hm4))
  | weightScale hm => exact .weightScale ((hmarked _).2 (.inl hm))

theorem StandsIn.data {earlier : List (List Char)} {s : Section} {line : List Char}
    (h : StandsIn earlier s) (hline : isComment line = false) : StandsIn (earlier ++ [line]) s := by
  have hmarked (marker : List Char) : Marked marker (earlier ++ [line]) ↔ Marked marker earlier := by
    simp [marked_append, hline]
  cases h with
  | default hw h4 => exact .default (mt (hmarked _).1 hw) (mt (hmarked _).1 h4)
  | int4 hw h4 => exact .int4 (mt (hmarked _).1 hw) ((hmarked _).2 h4)
  | weightScale hw => exact .weightScale ((hmarked _).2 hw)

inductive Files (line : List Char) : Section → Entry → Prop
  | default {shape : Shape} {name rest rest' : List Char} {r : Record}
    (hs : shape? line = some (shape, rest)) (hr : record? line = some ((name, r), rest')) :
    Files line .default (.default (String.ofList name) r)
  | int4 {name rest : List Char} {r : Record} (hr : record? line = some ((name, r), rest)) :
    Files line .int4 (.int4 (String.ofList name) r)
  | weightScale {name rest : List Char} {scales : List Float}
    (hc : channelScales? line = some ((name, scales), rest)) :
    Files line .weightScale (.channelScales (String.ofList name) scales)

theorem Files.unique {line : List Char} {s : Section} {e e' : Entry} (h : Files line s e)
    (h' : Files line s e') : e = e' := by
  cases h with
  | default _ hr =>
    cases h' with
    | default _ hr' =>
      cases hr.symm.trans hr'
      rfl
  | int4 hr =>
    cases h' with
    | int4 hr' =>
      cases hr.symm.trans hr'
      rfl
  | weightScale hc =>
    cases h' with
    | weightScale hc' =>
      cases hc.symm.trans hc'
      rfl

theorem Files.judge {line : List Char} {s : Section} {e : Entry} (h : Files line s e)
    (hline : isComment line = false) : s.judge line = .entry e := by
  cases h with
  | default hs hr => simp [Section.judge, hline, hs, hr]
  | int4 hr => simp [Section.judge, hline, hr]
  | weightScale hc => simp [Section.judge, hline, hc]

inductive Judged (s : Section) (line : List Char) : Verdict → Prop
  | comment (hline : isComment line = true) : Judged s line (.comment (s.afterComment line))
  | entry {e : Entry} (hline : isComment line = false) (he : Files line s e) :
    Judged s line (.entry e)
  | cut (hline : isComment line = false) (hbad : ∀ e, ¬Files line s e)
    (hshape : s = .default → shape? line ≠ none) : Judged s line .cut
  | malformed (hline : isComment line = false) (hbad : ∀ e, ¬Files line s e)
    (hs : s = .default) (hshape : shape? line = none) : Judged s line .malformed

theorem Section.judged (s : Section) (line : List Char) : Judged s line (s.judge line) := by
  unfold judge
  cases hline : isComment line with
  | true => exact .comment hline
  | false =>
    cases s with
    | default =>
      cases hs : shape? line with
      | none =>
        refine .malformed hline (fun e he => ?_) rfl hs
        cases he with
        | default hs' _ => cases hs.symm.trans hs'
      | some shape =>
        cases hr : record? line with
        | none =>
          refine .cut hline (fun e he => ?_) fun _ => by simp [hs]
          cases he with
          | default _ hr' => cases hr.symm.trans hr'
        | some r => exact .entry hline (.default hs hr)
    | int4 =>
      cases hr : record? line with
      | none =>
        refine .cut hline (fun e he => ?_) nofun
        cases he with
        | int4 hr' => cases hr.symm.trans hr'
      | some r => exact .entry hline (.int4 hr)
    | weightScale =>
      cases hc : channelScales? line with
      | none =>
        refine .cut hline (fun e he => ?_) nofun
        cases he with
        | weightScale hc' => cases hc.symm.trans hc'
      | some r => exact .entry hline (.weightScale hc)

namespace Section
variable {s : Section} {line : List Char}

/-- An entry is filed by no other lines. -/
theorem judge_eq_entry_iff {e : Entry} :
    s.judge line = .entry e ↔ isComment line = false ∧ Files line s e := by
  constructor
  · intro h
    have hjudged := s.judged line
    rw [h] at hjudged
    cases hjudged with
    | entry hline he => exact ⟨hline, he⟩
  · rintro ⟨hline, he⟩
    exact he.judge hline

theorem judge_eq_cut_iff : s.judge line = .cut ↔
    isComment line = false ∧ (∀ e, ¬Files line s e) ∧ (s = .default → shape? line ≠ none) := by
  have hjudged := s.judged line
  constructor
  · intro h
    rw [h] at hjudged
    cases hjudged with
    | cut hline hbad hshape => exact ⟨hline, hbad, hshape⟩
  · rintro ⟨hdata, hnone, hshaped⟩
    generalize s.judge line = verdict at hjudged
    cases hjudged with
    | comment hline => simp [hdata] at hline
    | entry _ he => exact absurd he (hnone _)
    | cut => rfl
    | malformed _ _ hs hshape => exact absurd hshape (hshaped hs)

theorem judge_eq_malformed_iff :
    s.judge line = .malformed ↔ isComment line = false ∧ s = .default ∧ shape? line = none := by
  constructor
  · intro h
    have hjudged := s.judged line
    rw [h] at hjudged
    cases hjudged with
    | malformed hline _ hs hshape => exact ⟨hline, hs, hshape⟩
  · rintro ⟨hline, rfl, hshape⟩
    simp [judge, hline, hshape]

end Section
end Calibration.Table
