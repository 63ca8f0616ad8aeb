import Calibration.Log
import Calibration.Plan.Error
import Calibration.Plan.Range

/-! # What a table says about an operation

Each operation of a module gives findings, in the order in which they are made: a value and its type,
the scales of a weight, a boundary between storage widths, or a reason to stop. Edits, counts, reports
and errors are all views of the same findings.
-/
namespace Calibration

inductive Finding where
  /-- The result with this index gets a type in place of its old element. -/
  | typed (result : Nat) (name : String) (old : ElementType) (type : CalibratedType)
  | missingRecord (name : String) (kind : OpKind)
  | unusedWeight (name : String)
  | sharedWeight (name consumer : String)
  | weightScales (name : String) (vector : ChannelScales)
  | channelCount (key : String) (expected found : Nat)
  /-- Eight-bit values leave the operation towards one that is neither convolution nor product. -/
  | outputBoundary (name : String) (params : Affine)
  /-- Four-bit values enter the operation from one that is neither of these nor an input. -/
  | inputBoundary (name : String) (params : Affine)
  /-- The range of a value has no map onto the integers. -/
  | overflow
  deriving DecidableEq

namespace Finding

def stop? : Finding → Option (Stop CalibrationError)
  | .missingRecord name kind => some (.reported (.missingRecord name kind))
  | .channelCount key expected found => some (.reported (.channelCount key expected found))
  | .overflow => some .overflow
  | _ => none

end Finding

variable (tables : Tables) (settings : Settings)

def valueFinding? (kind : OpKind) (v : Value) (result : Nat) : Option Finding :=
  match v.type with
  | .none => none
  | .tensor t =>
    if t.element.isDiscrete then none
    else match tables.lookup v.name kind.isConvOrMatMul with
      | none => some (.missingRecord v.name kind)
      | some (source, r) =>
        some ((settings.typeFor? kind source r).elim .overflow (.typed result v.name t.element))

def valueFindings (op : Operation) : List Finding :=
  op.results.zipIdx.filterMap fun (v, i) => valueFinding? tables settings op.kind v i

def Operation.channels? (op : Operation) : Option Nat := do
  let v ← op.results.head?
  let t ← v.type.tensor?
  let dim ← t.shape.head?
  if 0 ≤ dim then some dim.toInt.toNat else none

/-- A weight takes the scales filed under the name of the first operation that reads it. -/
def weightFindings (f : Function) (op : Operation) : List Finding :=
  match op.name? with
  | none => []
  | some name =>
    let users := f.users name
    match users.head?.bind Operation.name? with
    | none => [.unusedWeight name]
    | some consumer =>
      let shared := if 1 < users.length then [Finding.sharedWeight name consumer] else []
      let scales := match tables.weightScales consumer with
        | none => []
        | some vector =>
          match op.channels? with
          | none => [Finding.weightScales name vector]
          | some expected =>
            if expected = vector.scales.length then [.weightScales name vector]
            else [.channelCount (Tables.weightKey consumer) expected vector.scales.length]
      shared ++ scales

/-- The boundary at the first result, if something other than a convolution or product reads it. -/
def outputBoundary? (f : Function) (op : Operation) (name : String) : Option Finding :=
  if (f.users name).any fun u => !u.kind.isConvOrMatMul then
    (tables.default.get? name).map fun r =>
      (op.kind.affine? r settings.asymmetric 8).elim .overflow (.outputBoundary name)
  else none

/-- The boundary at the first operand. -/
def inputBoundary? (f : Function) (op : Operation) (name : String) : Option Finding := do
  let operand ← op.operands.head?
  let producer ← f.producer? operand
  if producer.kind = .input ∨ producer.kind.isConvOrMatMul then none
  else
    let r ← tables.int4.get? operand
    return (producer.kind.affine? r settings.asymmetric 4).elim .overflow (.inputBoundary name)

def boundaryFindings (f : Function) (op : Operation) : List Finding :=
  match op.name? with
  | none => []
  | some name =>
    (outputBoundary? tables settings f op name).toList
      ++ (inputBoundary? tables settings f op name).toList

def opFindings (f : Function) (op : Operation) : List Finding :=
  match op.kind with
  | .weight => weightFindings tables f op
  | .plumbing _ => []
  | kind =>
    valueFindings tables settings op
      ++ (if kind.isConvOrMatMul then boundaryFindings tables settings f op else [])

end Calibration
