import Calibration.Graph.Basic
import Calibration.Json.Printer
import Calibration.Json.Reader
import Calibration.Quant.Codec

/-! # Graphs as JSON

Empty operands and attributes are left out. An attribute is written as its bare value, and its kind is
found again from that: whole numbers without a point are integers, and an array is one of integers if
it can be.
-/
namespace Calibration
open Json

namespace State

def toJson (s : State) : Json := .text s.label

def ofJson? (j : Json) : Option State := do
  let (name, held) ← choice? j
  match name with
  | "TOP_F32" => named? .topF32 held
  | "TOP_CALIBRATED" => named? .topCalibrated held
  | "TPU_LOWERED" => named? .tpuLowered held
  | _ => none

end State

namespace OpKind

def toJson : OpKind → Json
  | .input => .text "input"
  | .weight => .text "weight"
  | .abs => .text "abs"
  | .sigmoid => .text "sigmoid"
  | .conv => .text "conv"
  | .matMul => .text "mat_mul"
  | .inferable name => .object [("inferable", .text name)]
  | .plumbing name => .object [("opaque", .text name)]

def ofJson? (j : Json) : Option OpKind := do
  let (name, held) ← choice? j
  match name with
  | "input" => named? .input held
  | "weight" => named? .weight held
  | "abs" => named? .abs held
  | "sigmoid" => named? .sigmoid held
  | "conv" => named? .conv held
  | "mat_mul" => named? .matMul held
  | "inferable" => (toText? held).map .inferable
  | "opaque" => (toText? held).map .plumbing
  | _ => none

end OpKind

namespace Attribute

def toJson : Attribute → Json
  | .bool b => .bool b
  | .int n => .int n.toInt
  | .float x => .float x
  | .ints ns => .arr (ns.map fun n => .int n.toInt)
  | .floats xs => .arr (xs.map .float)
  | .str s => .text s

/-- The first kind that the value can be read as. -/
def ofJson? (j : Json) : Option Attribute :=
  (toBool? j).map .bool
    <|> (toInt64? j).map .int
    <|> (toFloat? j).map .float
    <|> (toList? toInt64? j).map .ints
    <|> (toList? toFloat? j).map .floats
    <|> (toText? j).map .str

def mapToJson (attrs : NameMap Attribute) : Json :=
  .object (attrs.entries.map fun e => (e.1, e.2.toJson))

def mapOfJson? (j : Json) : Option (NameMap Attribute) := toMap? ofJson? j

end Attribute

namespace TensorType

def toJson (t : TensorType) : Json :=
  .object [("shape", .arr (t.shape.map fun dim => .int dim.toInt)), ("element", t.element.toJson)]

def ofJson? (j : Json) : Option TensorType := do
  match ← fields? ["shape", "element"] j with
  | [shape, element] =>
    let shape ← required (toList? toInt64?) shape
    let element ← required ElementType.ofJson? element
    return ⟨shape, element⟩
  | _ => none

end TensorType

namespace ValueType

def toJson : ValueType → Json
  | .none => .text "none"
  | .tensor t => .object [("tensor", t.toJson)]

def ofJson? (j : Json) : Option ValueType := do
  let (name, held) ← choice? j
  match name with
  | "none" => named? .none held
  | "tensor" => (TensorType.ofJson? held).map .tensor
  | _ => Option.none

end ValueType

namespace Value

def toJson (v : Value) : Json := .object [("name", .text v.name), ("ty", v.type.toJson)]

def ofJson? (j : Json) : Option Value := do
  match ← fields? ["name", "ty"] j with
  | [name, type] =>
    let name ← required toText? name
    let type ← required ValueType.ofJson? type
    return ⟨name, type⟩
  | _ => none

end Value

def namesToJson (names : List String) : Json := .arr (names.map .text)

namespace Operation

def toJson (op : Operation) : Json :=
  .object <| [("kind", op.kind.toJson)] ++
    (if op.operands.isEmpty then [] else [("operands", namesToJson op.operands)]) ++
    [("results", .arr (op.results.map Value.toJson))] ++
    (if op.attrs.isEmpty then [] else [("attrs", Attribute.mapToJson op.attrs)])

def ofJson? (j : Json) : Option Operation := do
  match ← fields? ["kind", "operands", "results", "attrs"] j with
  | [kind, operands, results, attrs] =>
    let kind ← required OpKind.ofJson? kind
    let operands ← withDefault [] (toList? toText?) operands
    let results ← required (toList? Value.ofJson?) results
    let attrs ← withDefault .empty Attribute.mapOfJson? attrs
    return ⟨kind, operands, results, attrs⟩
  | _ => none

end Operation

namespace Function

def toJson (f : Function) : Json :=
  .object [("name", .text f.name), ("ops", .arr (f.ops.map Operation.toJson)),
    ("outputs", namesToJson f.outputs),
    ("output_types", .arr (f.outputTypes.map ValueType.toJson))]

def ofJson? (j : Json) : Option Function := do
  match ← fields? ["name", "ops", "outputs", "output_types"] j with
  | [name, ops, outputs, outputTypes] =>
    let name ← required toText? name
    let ops ← required (toList? Operation.ofJson?) ops
    let outputs ← withDefault [] (toList? toText?) outputs
    let outputTypes ← withDefault [] (toList? ValueType.ofJson?) outputTypes
    return ⟨name, ops, outputs, outputTypes⟩
  | _ => none

end Function

namespace Module

def toJson (m : Module) : Json :=
  .object [("name", .text m.name), ("state", m.state.toJson),
    ("functions", .arr (m.functions.map Function.toJson))]

def ofJson? (j : Json) : Option Module := do
  match ← fields? ["name", "state", "functions"] j with
  | [name, state, functions] =>
    let name ← required toText? name
    let state ← required State.ofJson? state
    let functions ← required (toList? Function.ofJson?) functions
    return ⟨name, state, functions⟩
  | _ => none

def toText (m : Module) : String := m.toJson.pretty

def ofText? (text : String) : Option Module := (Json.read? text).bind ofJson?

end Module
end Calibration
