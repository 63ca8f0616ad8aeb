import Calibration.Proofs.Json.Fields
import Calibration.Proofs.Table.Numbers
import Calibration.Table.Codec

/-! # Stored tables

A table that was read is finite and well named, so its text tells all of it and it is loaded as it was.
-/
namespace Calibration
open Json

namespace Record
variable {r : Record} (h : r.Finite)
include h

theorem ofJson?_toJson : ofJson? r.toJson = some r := by
  have hfields : fields? ["threshold", "min", "max"] r.toJson =
      some [some (.float r.threshold), some (.float r.min), some (.float r.max)] := rfl
  simp [ofJson?, hfields, required, toFloat?_float h.threshold, toFloat?_float h.min,
    toFloat?_float h.max]

theorem storable_toJson : Storable r.toJson := by
  refine .object ?_
  simp [Storable.float h.threshold, Storable.float h.min, Storable.float h.max]

end Record

namespace ChannelScales
variable {v : ChannelScales} (h : AllFinite v.scales)
include h

theorem ofJson?_toJson : ofJson? v.toJson = some v := by
  have hfields : fields? ["name", "scales"] v.toJson =
      some [some (.text v.name), some (.arr (v.scales.map .float))] := rfl
  have hname : toText? (.text v.name) = some v.name := rfl
  have hscales : toList? toFloat? (.arr (v.scales.map .float)) = some v.scales :=
    toList?_map_self fun x hx => toFloat?_float (h x hx)
  simp [ofJson?, hfields, required, hname, hscales]

theorem storable_toJson : Storable v.toJson := by
  have hname : Storable (.text v.name) := .text v.name
  have hscales : Storable (.arr (v.scales.map .float)) := .array fun x hx => .float (h x hx)
  refine .object ?_
  simp [hname, hscales]

end ChannelScales

namespace Tables

theorem toMap?_storeToJson {α : Type} {toJson : α → Json} {ofJson? : Json → Option α} {m : NameMap α}
    (h : ∀ e ∈ m.entries, ofJson? (toJson e.2) = some e.2) :
    toMap? ofJson? (storeToJson toJson m) = some m := by
  rw [storeToJson, toMap?_object (g := id) h, NameMap.mapValues_eq_self fun _ _ => rfl]

theorem storable_storeToJson {α : Type} {toJson : α → Json} {m : NameMap α}
    (h : ∀ e ∈ m.entries, Storable (toJson e.2)) : Storable (storeToJson toJson m) := by
  refine .object fun member hmember => ?_
  obtain ⟨e, he, rfl⟩ := List.mem_map.1 hmember
  exact h e he

variable {t : Tables} (h : t.Finite)
include h

theorem ofJson?_toJson : ofJson? t.toJson = some t := by
  have hfields : fields? ["default", "int4", "channel_scales"] t.toJson =
      some [some (storeToJson Record.toJson t.default), some (storeToJson Record.toJson t.int4),
        some (storeToJson ChannelScales.toJson t.channelScales)] := rfl
  have hdefault : toMap? Record.ofJson? (storeToJson Record.toJson t.default) = some t.default :=
    toMap?_storeToJson fun e he => Record.ofJson?_toJson (h.default _ _ (NameMap.get?_eq_some_iff.2 he))
  have hint4 : toMap? Record.ofJson? (storeToJson Record.toJson t.int4) = some t.int4 :=
    toMap?_storeToJson fun e he => Record.ofJson?_toJson (h.int4 _ _ (NameMap.get?_eq_some_iff.2 he))
  have hscales : toMap? ChannelScales.ofJson? (storeToJson ChannelScales.toJson t.channelScales) =
      some t.channelScales :=
    toMap?_storeToJson fun e he =>
      ChannelScales.ofJson?_toJson (h.channelScales _ _ (NameMap.get?_eq_some_iff.2 he))
  simp [ofJson?, hfields, required, hdefault, hint4, hscales]

theorem storable_toJson : Storable t.toJson := by
  have hdefault : Storable (storeToJson Record.toJson t.default) :=
    storable_storeToJson fun e he => Record.storable_toJson (h.default _ _ (NameMap.get?_eq_some_iff.2 he))
  have hint4 : Storable (storeToJson Record.toJson t.int4) :=
    storable_storeToJson fun e he => Record.storable_toJson (h.int4 _ _ (NameMap.get?_eq_some_iff.2 he))
  have hscales : Storable (storeToJson ChannelScales.toJson t.channelScales) :=
    storable_storeToJson fun e he =>
      ChannelScales.storable_toJson (h.channelScales _ _ (NameMap.get?_eq_some_iff.2 he))
  refine .object ?_
  simp [hdefault, hint4, hscales]

theorem ofText?_toText : ofText? t.toText = some t := by
  have hread : Json.read? (t.toJson.pretty ++ "") = some t.toJson :=
    (storable_toJson h).read?_pretty (by simp)
  rw [String.append_empty] at hread
  rw [ofText?, toText, hread]
  exact ofJson?_toJson h

end Tables

/-! The names of a table are words of its lines. -/

structure IsName (name : String) : Prop where
  ne_empty : name ≠ ""
  no_whitespace : ∀ c ∈ name.toList, Text.isWhitespace c = false

structure Tables.WellNamed (t : Tables) : Prop where
  default : ∀ name r, t.default.get? name = some r → IsName name ∧ name.toList.head? ≠ some '#'
  int4 : ∀ name r, t.int4.get? name = some r → IsName name
  channelScales : ∀ name v, t.channelScales.get? name = some v → IsName name ∧ v.name = name

namespace Table
open Text

theorem IsWord.isName {word : List Char} (h : IsWord word) : IsName (String.ofList word) where
  ne_empty hempty := h.ne_nil (by simpa using congrArg String.toList hempty)
  no_whitespace c hc := by
    rw [String.toList_ofList] at hc
    simpa using h.all c hc

/-- A line of the shape of a record begins with the name that is read from it. -/
theorem word?_of_shape? {line name rest rest' : List Char} {shape : Shape} {r : Record}
    (hs : shape? line = some (shape, rest)) (hr : record? line = some ((name, r), rest')) :
    ∃ left, word? line = some (name, left) := by
  obtain ⟨⟨word, left⟩, hword, -⟩ := Option.bind_eq_some_iff.1 hs
  obtain ⟨hrun, -, hline⟩ := run?_eq_some_iff.1 hword
  have hskip : skipBlanks line = line := by
    rw [hline]
    exact skipBlanks_append hrun left
  obtain ⟨left', -, -, hname, -⟩ := record?_eq_some_iff.1 hr
  rw [hskip] at hname
  exact ⟨left', hname⟩

def Entry.WellNamed : Entry → Prop
  | .default name _ => IsName name ∧ name.toList.head? ≠ some '#'
  | .int4 name _ => IsName name
  | .channelScales name _ => IsName name

theorem Files.wellNamed {line : List Char} {s : Section} {e : Entry} (hdata : isComment line = false)
    (h : Files line s e) : e.WellNamed := by
  cases h with
  | default hs hr =>
    obtain ⟨left, hword⟩ := word?_of_shape? hs hr
    obtain ⟨hrun, -, hline⟩ := run?_eq_some_iff.1 hword
    refine ⟨IsWord.isName hrun, fun hhead => ?_⟩
    rw [String.toList_ofList] at hhead
    simp [isComment, hline, List.head?_append, hhead] at hdata
  | int4 hr =>
    obtain ⟨left, -, -, hword, -⟩ := record?_eq_some_iff.1 hr
    exact IsWord.isName (run?_eq_some_iff.1 hword).1
  | weightScale hc =>
    obtain ⟨left, -, -, -, hword, -⟩ := channelScales?_eq_some_iff.1 hc
    exact IsWord.isName (run?_eq_some_iff.1 hword).1

theorem wellNamed_of_parseLines {lines : List (Except TableError String)} {parsed : Parsed}
    (h : parseLines lines = .ok parsed) : parsed.tables.WellNamed := by
  have hall : parsed.tables.AllEntries Entry.WellNamed :=
    allEntries_of_parseLines (fun _ _ _ hdata he => he.wellNamed hdata) h
  exact ⟨hall.default, hall.int4, fun name v hv => (hall.channelScales name v hv).symm⟩

/-- Whatever was read from a text, all of it or up to a line that cut it, holds finite numbers under proper
names and each vector under its own, and is loaded from its stored text as it was. -/
theorem stored_tables_of_parseText {text : String} {parsed : Parsed}
    (h : parseText text = .ok parsed) :
    parsed.tables.Finite ∧ parsed.tables.WellNamed ∧
      Tables.ofText? parsed.tables.toText = some parsed.tables := by
  have hfinite := finite_of_parseLines h
  exact ⟨hfinite, wellNamed_of_parseLines h, Tables.ofText?_toText hfinite⟩

/-- The last record of `c` counts, a name may begin with `#` where its line does not, and a number beyond
all floats cuts the table. -/
def cutText : String :=
  "c 1 -1 1\nc 2.5 -3e-1 .5\n#int4_th\n\t#q 1 0 1 more\n#weight_scale\nw 2 0.5 1e-3 more\nv 1 1e999\nz 0\n"

def cutTables : Tables :=
  ((Tables.empty.insertDefault "c" ⟨2.5, -0.3, 0.5⟩).insertInt4 "#q" ⟨1, 0, 1⟩).insertChannelScales "w"
    [0.5, 0.001]

theorem stored_tables_of_cutText :
    parseText cutText = .ok ⟨cutTables, .truncated 7 "v 1 1e999"⟩ ∧
    cutTables.Finite ∧ cutTables.WellNamed ∧ Tables.ofText? cutTables.toText = some cutTables := by
  have hparsed : parseText cutText = .ok ⟨cutTables, .truncated 7 "v 1 1e999"⟩ := by decide +kernel
  exact ⟨hparsed, stored_tables_of_parseText hparsed⟩

end Table
end Calibration
