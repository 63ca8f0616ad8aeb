import Calibration.Graph.Basic
import Calibration.Table.Store

/-! # Settings and ranges

What may be chosen about a calibration, and the range that a record gives to the result of an
operation.
-/
namespace Calibration

/-- How values with a default record are stored. -/
inductive Precision where
  | int8
  | bf16
  | f32
  deriving DecidableEq, Repr

def Precision.storage : Precision → Storage
  | .int8 => .int8
  | .bf16 => .bf16
  | .f32 => .f32

structure Settings where
  asymmetric : Bool
  precision : Precision
  deriving DecidableEq, Repr

def Settings.storageFor (s : Settings) : RecordSource → Storage
  | .default => s.precision.storage
  | .int4 => .int4

/-- The range of a result. That of an absolute value is taken around zero and that of a sigmoid is
fixed. Otherwise a symmetric calibration keeps the threshold and asks the recorded minimum for its
sign only, and an asymmetric one keeps what was recorded. -/
def OpKind.range (kind : OpKind) (r : Record) (asymmetric : Bool) : Float × Float :=
  match kind with
  | .abs => (-r.threshold, r.threshold)
  | .sigmoid => (0, 1)
  | _ =>
    if asymmetric then (r.min, r.max)
    else (if r.min < 0 then -r.threshold else 0, r.threshold)

def OpKind.affine? (kind : OpKind) (r : Record) (asymmetric : Bool) (bits : Nat) : Option Affine :=
  let (min, max) := kind.range r asymmetric
  Affine.derive? min max (Grid.forBits bits asymmetric)

/-- The type that a record from this store gives to the result of an operation. -/
def Settings.typeFor? (s : Settings) (kind : OpKind) (source : RecordSource) (r : Record) :
    Option CalibratedType :=
  let (min, max) := kind.range r s.asymmetric
  CalibratedType.ofRange? (s.storageFor source) min max s.asymmetric

end Calibration
