import Calibration.Number.Layout
import Calibration.Quant.Grid

/-! # Element types before and after calibration

A calibrated type keeps the range that was observed and, for integer storage, the map of that range
onto the integers.
-/
namespace Calibration

inductive Storage where
  | int8
  | int4
  | bf16
  | f32
  deriving DecidableEq, Repr

namespace Storage

def bits : Storage → Option Nat
  | .int8 => some 8
  | .int4 => some 4
  | .bf16 | .f32 => none

def isInteger (s : Storage) : Bool := s.bits.isSome

def label : Storage → String
  | .int8 => "int8"
  | .int4 => "int4"
  | .bf16 => "bf16"
  | .f32 => "f32"

end Storage

structure CalibratedType where
  storage : Storage
  min : Float
  max : Float
  params : Option Affine
  deriving DecidableEq

namespace CalibratedType

/-- The type of a value over `[min, max]`. Float storage only records the range. -/
def ofRange? (storage : Storage) (min max : Float) (asymmetric : Bool) : Option CalibratedType :=
  match storage.bits with
  | none => some ⟨storage, min, max, none⟩
  | some bits =>
    (Affine.derive? min max (Grid.forBits bits asymmetric)).map fun p => ⟨storage, min, max, some p⟩

def label (t : CalibratedType) : String :=
  let min := Layout.shown t.min
  let max := Layout.shown t.max
  match t.params with
  | some p =>
    let scale := Layout.shown p.scale
    s!"!quant.{t.storage.label}<{scale}:{p.zeroPoint.toInt}, [{min}, {max}]>"
  | none => s!"!calibrated.{t.storage.label}<{min}:{max}>"

end CalibratedType

inductive ElementType where
  | f32
  | f16
  | bf16
  | i8
  | i16
  | i32
  | i64
  | index
  | calibrated (type : CalibratedType)
  deriving DecidableEq

namespace ElementType

/-- Integers and indices are never calibrated, and integer storage never a second time. -/
def isDiscrete : ElementType → Bool
  | .i8 | .i16 | .i32 | .i64 | .index => true
  | .calibrated t => t.storage.isInteger
  | .f32 | .f16 | .bf16 => false

def calibrated? : ElementType → Option CalibratedType
  | .calibrated t => some t
  | _ => none

def label : ElementType → String
  | .f32 => "f32"
  | .f16 => "f16"
  | .bf16 => "bf16"
  | .i8 => "i8"
  | .i16 => "i16"
  | .i32 => "i32"
  | .i64 => "i64"
  | .index => "index"
  | .calibrated t => t.label

end ElementType
end Calibration
