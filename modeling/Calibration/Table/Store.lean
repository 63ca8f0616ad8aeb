import Calibration.NameMap

/-! # Calibration records

A table holds three stores: records for values kept at the chosen precision, records for values that
may go to four bits, and the per-channel scales of weights.
-/
namespace Calibration

structure Record where
  threshold : Float
  min : Float
  max : Float
  deriving DecidableEq

structure ChannelScales where
  name : String
  scales : List Float
  deriving DecidableEq

inductive RecordSource where
  | default
  | int4
  deriving DecidableEq, Repr

structure Tables where
  default : NameMap Record
  int4 : NameMap Record
  channelScales : NameMap ChannelScales
  deriving DecidableEq

namespace Tables

def empty : Tables := ⟨.empty, .empty, .empty⟩

instance : Inhabited Tables := ⟨empty⟩

def insertDefault (t : Tables) (name : String) (r : Record) : Tables :=
  { t with default := t.default.insert name r }

def insertInt4 (t : Tables) (name : String) (r : Record) : Tables :=
  { t with int4 := t.int4.insert name r }

def insertChannelScales (t : Tables) (name : String) (scales : List Float) : Tables :=
  { t with channelScales := t.channelScales.insert name ⟨name, scales⟩ }

/-- The default store wins; the int4 store is asked only where four bits are allowed. -/
def lookup (t : Tables) (name : String) (int4Allowed : Bool) : Option (RecordSource × Record) :=
  match t.default.get? name with
  | some r => some (.default, r)
  | none => if int4Allowed then (t.int4.get? name).map fun r => (.int4, r) else none

theorem lookup_eq_some_iff {t : Tables} {name : String} {int4Allowed : Bool}
    {source : RecordSource} {r : Record} :
    t.lookup name int4Allowed = some (source, r) ↔
      (source = .default ∧ t.default.get? name = some r) ∨
        (source = .int4 ∧ int4Allowed = true ∧ t.default.get? name = none ∧
          t.int4.get? name = some r) := by
  unfold lookup
  cases t.default.get? name with
  | some d => simp [eq_comm]
  | none =>
    cases int4Allowed with
    | false => simp
    | true => cases t.int4.get? name <;> simp [eq_comm]

theorem lookup_eq_none_iff {t : Tables} {name : String} {int4Allowed : Bool} :
    t.lookup name int4Allowed = none ↔
      t.default.get? name = none ∧ (int4Allowed = true → t.int4.get? name = none) := by
  unfold lookup
  cases t.default.get? name with
  | some d => simp
  | none => cases int4Allowed <;> simp

theorem lookup_of_default {t : Tables} {name : String} {int4Allowed : Bool} {r : Record}
    (hr : t.default.get? name = some r) : t.lookup name int4Allowed = some (.default, r) :=
  lookup_eq_some_iff.2 (.inl ⟨rfl, hr⟩)

theorem lookup_of_int4 {t : Tables} {name : String} {int4Allowed : Bool} {r : Record}
    (h : int4Allowed = true) (hn : t.default.get? name = none) (hr : t.int4.get? name = some r) :
    t.lookup name int4Allowed = some (.int4, r) :=
  lookup_eq_some_iff.2 (.inr ⟨rfl, h, hn, hr⟩)

/-- The name under which the scales of the weight read by `consumer` are filed. -/
def weightKey (consumer : String) : String := consumer ++ "_weight"

def weightScales (t : Tables) (consumer : String) : Option ChannelScales :=
  t.channelScales.get? (weightKey consumer)

def isEmpty (t : Tables) : Bool :=
  t.default.isEmpty && t.int4.isEmpty && t.channelScales.isEmpty

end Tables
end Calibration
