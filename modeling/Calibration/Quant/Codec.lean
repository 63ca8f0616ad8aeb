import Calibration.Json.Decode
import Calibration.Quant.ElementType

/-! # Element types as JSON -/
namespace Calibration
open Json

namespace Storage

def toJson (s : Storage) : Json := .text s.label

def ofJson? (j : Json) : Option Storage := do
  let (name, held) ← choice? j
  match name with
  | "int8" => named? .int8 held
  | "int4" => named? .int4 held
  | "bf16" => named? .bf16 held
  | "f32" => named? .f32 held
  | _ => none

end Storage

namespace Affine

def toJson (p : Affine) : Json :=
  .object [("scale", .float p.scale), ("zero_point", .int p.zeroPoint.toInt),
    ("qmin", .int p.grid.low.toInt), ("qmax", .int p.grid.high.toInt)]

def ofJson? (j : Json) : Option Affine := do
  match ← fields? ["scale", "zero_point", "qmin", "qmax"] j with
  | [scale, zeroPoint, low, high] =>
    let scale ← required toFloat? scale
    let zeroPoint ← required toInt64? zeroPoint
    let low ← required toInt64? low
    let high ← required toInt64? high
    return ⟨scale, zeroPoint, ⟨low, high⟩⟩
  | _ => none

end Affine

namespace CalibratedType

def toJson (t : CalibratedType) : Json :=
  .object <| [("element", t.storage.toJson), ("min", .float t.min), ("max", .float t.max)] ++
    (t.params.map fun p => ("params", p.toJson)).toList

def paramsOfJson? : Json → Option (Option Affine)
  | .null => some none
  | j => (Affine.ofJson? j).map some

def ofJson? (j : Json) : Option CalibratedType := do
  match ← fields? ["element", "min", "max", "params"] j with
  | [storage, min, max, params] =>
    let storage ← required Storage.ofJson? storage
    let min ← required toFloat? min
    let max ← required toFloat? max
    let params ← withDefault none paramsOfJson? params
    return ⟨storage, min, max, params⟩
  | _ => none

end CalibratedType

namespace ElementType

def toJson : ElementType → Json
  | .calibrated t => .object [("quant", t.toJson)]
  | e => .text e.label

def ofJson? (j : Json) : Option ElementType := do
  let (name, held) ← choice? j
  match name with
  | "f32" => named? .f32 held
  | "f16" => named? .f16 held
  | "bf16" => named? .bf16 held
  | "i8" => named? .i8 held
  | "i16" => named? .i16 held
  | "i32" => named? .i32 held
  | "i64" => named? .i64 held
  | "index" => named? .index held
  | "quant" => (CalibratedType.ofJson? held).map .calibrated
  | _ => none

end ElementType
end Calibration
