import Calibration.Proofs.Table.Sections
import Calibration.Table.Reader

/-! # The entries of a table

A table holds nothing but what good lines have filed. So what is true of every such entry is true of all
entries of the table when its reading ends, wherever that is.
-/
namespace Calibration

/-- `p` is true of every entry, and every vector stands under its own name. -/
structure Tables.AllEntries (p : Table.Entry → Prop) (t : Tables) : Prop where
  default : ∀ name r, t.default.get? name = some r → p (.default name r)
  int4 : ∀ name r, t.int4.get? name = some r → p (.int4 name r)
  channelScales : ∀ name v, t.channelScales.get? name = some v →
    v.name = name ∧ p (.channelScales name v.scales)

theorem NameMap.forall_get?_insert {α : Type} {p : String → α → Prop} {m : NameMap α} {name : String}
    {a : α} (ha : p name a) (hm : ∀ key b, m.get? key = some b → p key b) :
    ∀ key b, (m.insert name a).get? key = some b → p key b := by
  intro key b hb
  rw [get?_insert] at hb
  split at hb
  · next hkey =>
    cases hb
    exact hkey ▸ ha
  · exact hm key b hb

namespace Table
variable {p : Entry → Prop}

theorem allEntries_empty : Tables.empty.AllEntries p := ⟨nofun, nofun, nofun⟩

theorem allEntries_fileEntry {t : Tables} {e : Entry} (h : t.AllEntries p) (he : p e) :
    (fileEntry t e).AllEntries p := by
  cases e with
  | default name r => exact { h with
      default := NameMap.forall_get?_insert (p := fun name r => p (.default name r)) he h.default }
  | int4 name r => exact { h with
      int4 := NameMap.forall_get?_insert (p := fun name r => p (.int4 name r)) he h.int4 }
  | channelScales name scales => exact { h with
      channelScales := NameMap.forall_get?_insert
        (p := fun name (v : ChannelScales) => v.name = name ∧ p (.channelScales name v.scales))
        ⟨rfl, he⟩ h.channelScales }

section Reading
variable (hp : ∀ line s e, isComment line = false → Files line s e → p e)
include hp

theorem Reader.allEntries_feed {r : Reader} (h : r.tables.AllEntries p) (raw : String) :
    (r.feed raw).1.tables.AllEntries p := by
  have hjudged := r.mode.judged (content raw)
  unfold feed
  split
  · exact h
  · generalize hv : r.mode.judge (content raw) = verdict at hjudged
    simp only [hv]
    cases hjudged with
    | entry hdata he => exact allEntries_fileEntry h (hp _ _ _ hdata he)
    | comment | cut | malformed => exact h

/-- What holds of every entry that a line files holds of the tables in the end. -/
theorem Reader.allEntries_run {lines : List (Except TableError String)} {r last : Reader}
    (h : r.tables.AllEntries p) (hrun : r.run lines = .ok last) : last.tables.AllEntries p := by
  induction lines generalizing r with
  | nil =>
    cases hrun
    exact h
  | cons line rest ih =>
    cases line with
    | error e => cases hrun
    | ok raw =>
      have hnext := allEntries_feed hp h raw
      rw [Reader.run] at hrun
      generalize r.feed raw = out at hrun hnext
      obtain ⟨next, result⟩ := out
      cases result with
      | error e => cases hrun
      | ok step =>
        cases step with
        | stop =>
          cases hrun
          exact hnext
        | proceed => exact ih hnext hrun

theorem allEntries_of_parseLines {lines : List (Except TableError String)} {parsed : Parsed}
    (h : parseLines lines = .ok parsed) : parsed.tables.AllEntries p := by
  unfold parseLines at h
  cases hrun : Reader.start.run lines with
  | error e =>
    rw [hrun] at h
    cases h
  | ok last =>
    rw [hrun] at h
    cases h
    exact Reader.allEntries_run hp allEntries_empty hrun

end Reading
end Table
end Calibration
