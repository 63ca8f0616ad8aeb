import Calibration.NameMap
import Calibration.Quant.ElementType

/-! # Compute graphs

A module holds functions, a function operations in program order. Values are addressed by name, and an
operation is known by the name of its first result.
-/
namespace Calibration

inductive State where
  | topF32
  | topCalibrated
  | tpuLowered
  deriving DecidableEq, Repr

def State.label : State → String
  | .topF32 => "TOP_F32"
  | .topCalibrated => "TOP_CALIBRATED"
  | .tpuLowered => "TPU_LOWERED"

inductive OpKind where
  | input
  | weight
  | abs
  | sigmoid
  | conv
  | matMul
  /-- Any other operation whose results are calibrated. -/
  | inferable (name : String)
  /-- Plumbing, whose results never carry a range. -/
  | plumbing (name : String)
  deriving DecidableEq, Repr

namespace OpKind

def isConvOrMatMul : OpKind → Bool
  | .conv | .matMul => true
  | _ => false

def isCalibrated : OpKind → Bool
  | .weight | .plumbing _ => false
  | _ => true

theorem isConvOrMatMul_iff {kind : OpKind} :
    kind.isConvOrMatMul = true ↔ kind = .conv ∨ kind = .matMul := by
  cases kind <;> simp [isConvOrMatMul]

theorem isCalibrated_of_heavy {kind : OpKind} (h : kind = .conv ∨ kind = .matMul) :
    kind.isCalibrated = true := by
  rcases h with rfl | rfl <;> rfl

theorem isCalibrated_of_isConvOrMatMul {kind : OpKind} (h : kind.isConvOrMatMul = true) :
    kind.isCalibrated = true := isCalibrated_of_heavy (isConvOrMatMul_iff.1 h)

def label : OpKind → String
  | .input => "top.Input"
  | .weight => "top.Weight"
  | .abs => "top.Abs"
  | .sigmoid => "top.Sigmoid"
  | .conv => "top.Conv"
  | .matMul => "top.MatMul"
  | .inferable name | .plumbing name => s!"top.{name}"

end OpKind

inductive Attribute where
  | bool (b : Bool)
  | int (n : Int64)
  | float (x : Float)
  | ints (ns : List Int64)
  | floats (xs : List Float)
  | str (s : String)
  deriving DecidableEq

namespace Attribute

def asBool? : Attribute → Option Bool
  | .bool b => some b
  | _ => none

def asFloat? : Attribute → Option Float
  | .float x => some x
  | .int n => some (Binary64.ofInt n.toInt)
  | _ => none

def asInt? : Attribute → Option Int64
  | .int n => some n
  | _ => none

def asInts? : Attribute → Option (List Int64)
  | .ints ns => some ns
  | _ => none

/-- An empty array does not tell what it would hold. -/
def asFloats? : Attribute → Option (List Float)
  | .floats xs => some xs
  | .ints [] => some []
  | _ => none

end Attribute

structure TensorType where
  shape : List Int64
  element : ElementType
  deriving DecidableEq

def TensorType.label (t : TensorType) : String :=
  let dims := String.join (t.shape.map fun dim => s!"{dim.toInt}x")
  s!"tensor<{dims}{t.element.label}>"

inductive ValueType where
  /-- The place of an optional result that is not there. -/
  | none
  | tensor (type : TensorType)
  deriving DecidableEq

def ValueType.tensor? : ValueType → Option TensorType
  | .none => Option.none
  | .tensor t => some t

structure Value where
  name : String
  type : ValueType
  deriving DecidableEq

structure Operation where
  kind : OpKind
  operands : List String
  results : List Value
  attrs : NameMap Attribute
  deriving DecidableEq

namespace Operation

def name? (op : Operation) : Option String := op.results.head?.map Value.name

def uses (op : Operation) (name : String) : Bool := op.operands.contains name

def defines (op : Operation) (name : String) : Bool := op.results.any fun v => v.name = name

def setAttr (op : Operation) (key : String) (a : Attribute) : Operation :=
  { op with attrs := op.attrs.insert key a }

/-- Gives the tensor at this result another element type; anything else stays as it is. -/
def setElement (op : Operation) (result : Nat) (e : ElementType) : Operation :=
  { op with results := op.results.modify result fun v =>
      match v.type with
      | .none => v
      | .tensor t => { v with type := .tensor { t with element := e } } }

end Operation

structure Function where
  name : String
  ops : List Operation
  outputs : List String
  /-- The types of the outputs, as of the last refresh. -/
  outputTypes : List ValueType
  deriving DecidableEq

namespace Function

def new (name : String) : Function := ⟨name, [], [], []⟩

def values (f : Function) : List Value := f.ops.flatMap Operation.results

def value? (f : Function) (name : String) : Option Value :=
  f.values.find? fun v => v.name = name

def producer? (f : Function) (name : String) : Option Operation :=
  f.ops.find? fun op => op.defines name

def users (f : Function) (name : String) : List Operation :=
  f.ops.filter fun op => op.uses name

def push (f : Function) (op : Operation) : Function := { f with ops := f.ops ++ [op] }

def returning (f : Function) (name : String) : Function :=
  { f with outputs := f.outputs ++ [name] }

def modifyOp (f : Function) (i : Nat) (g : Operation → Operation) : Function :=
  { f with ops := f.ops.modify i g }

end Function

structure Module where
  name : String
  state : State
  functions : List Function
  deriving DecidableEq

namespace Module

def new (name : String) : Module := ⟨name, .topF32, []⟩

def value? (m : Module) (name : String) : Option Value :=
  m.functions.findSome? fun f => f.value? name

def op? (m : Module) (name : String) : Option Operation :=
  (m.functions.flatMap Function.ops).find? fun op => op.name? = some name

def addFunction (m : Module) (name : String) : Module :=
  { m with functions := m.functions ++ [Function.new name] }

def modifyFunction (m : Module) (i : Nat) (g : Function → Function) : Module :=
  { m with functions := m.functions.modify i g }

end Module
end Calibration
