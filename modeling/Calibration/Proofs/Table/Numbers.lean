import Calibration.Proofs.Number.Bits
import Calibration.Proofs.Table.Entries
import Calibration.Proofs.Table.Words

/-! # The numbers of a table

A word is read as a number only if its value is finite. So every line that is taken in files finite numbers,
and these are all that a table holds when its reading ends, wherever that is.
-/
namespace Calibration

structure Record.Finite (r : Record) : Prop where
  threshold : r.threshold.isFinite = true
  min : r.min.isFinite = true
  max : r.max.isFinite = true

structure Tables.Finite (t : Tables) : Prop where
  default : ∀ name r, t.default.get? name = some r → r.Finite
  int4 : ∀ name r, t.int4.get? name = some r → r.Finite
  channelScales : ∀ name v, t.channelScales.get? name = some v → AllFinite v.scales

namespace Table

theorem isFinite_of_number? {cs rest : List Char} {x : Float} (h : number? cs = some (x, rest)) :
    x.isFinite = true := by
  obtain ⟨_, hreads, -, -⟩ := number?_eq_some_iff.1 h
  exact hreads.finite

theorem finite_of_record? {cs name rest : List Char} {r : Record}
    (h : record? cs = some ((name, r), rest)) : r.Finite := by
  obtain ⟨_, _, _, -, hthreshold, hmin, hmax⟩ := record?_eq_some_iff.1 h
  exact ⟨isFinite_of_number? hthreshold, isFinite_of_number? hmin, isFinite_of_number? hmax⟩

theorem allFinite_of_numbers? {n : Nat} {cs rest : List Char} {xs : List Float}
    (h : numbers? n cs = some (xs, rest)) : AllFinite xs := by
  induction n generalizing cs xs with
  | zero =>
    cases h
    exact nofun
  | succ n ih =>
    obtain ⟨⟨x, left⟩, hx, h⟩ := Option.bind_eq_some_iff.1 h
    obtain ⟨⟨xs, left⟩, hxs, h⟩ := Option.bind_eq_some_iff.1 h
    cases h
    exact List.forall_mem_cons.2 ⟨isFinite_of_number? hx, ih hxs⟩

theorem allFinite_of_channelScales? {cs name rest : List Char} {xs : List Float}
    (h : channelScales? cs = some ((name, xs), rest)) : AllFinite xs := by
  obtain ⟨_, _, _, _, -, -, -, hscales⟩ := channelScales?_eq_some_iff.1 h
  exact allFinite_of_numbers? hscales

def Entry.Finite : Entry → Prop
  | .default _ r => r.Finite
  | .int4 _ r => r.Finite
  | .channelScales _ xs => AllFinite xs

theorem Files.finite {line : List Char} {s : Section} {e : Entry} (h : Files line s e) : e.Finite := by
  cases h with
  | default _ hr => exact finite_of_record? hr
  | int4 hr => exact finite_of_record? hr
  | weightScale hc => exact allFinite_of_channelScales? hc

theorem finite_of_parseLines {lines : List (Except TableError String)} {parsed : Parsed}
    (h : parseLines lines = .ok parsed) : parsed.tables.Finite := by
  have hall : parsed.tables.AllEntries Entry.Finite :=
    allEntries_of_parseLines (fun _ _ _ _ he => he.finite) h
  exact ⟨hall.default, hall.int4, fun name v hv => (hall.channelScales name v hv).2⟩

/-- Whatever is read from a file is finite. -/
theorem finite_of_parseFile {path : String} {source : Except FileFault ByteArray} {parsed : Parsed}
    (h : parseFile path source = .ok parsed) : parsed.tables.Finite := by
  cases source with
  | error fault => cases h
  | ok bytes => exact finite_of_parseLines h

end Table
end Calibration
