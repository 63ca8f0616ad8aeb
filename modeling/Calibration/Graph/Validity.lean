import Calibration.Graph.Basic

/-! # Well-formed modules

Value names are unique in a module, an operand is the result of an earlier operation of its function,
and an output is a result of its function. The first fault is reported: a repeated name before all
others, then function by function the operands before the outputs.
-/
namespace Calibration

inductive GraphError where
  | duplicateValue (name : String)
  | undefinedOperand (operand op : String)
  | unknownValue (name : String)
  deriving DecidableEq, Repr

def GraphError.message : GraphError → String
  | .duplicateValue name => s!"value `{name}` is defined more than once"
  | .undefinedOperand operand op => s!"operand `{operand}` of `{op}` is used before it is defined"
  | .unknownValue name => s!"unknown value `{name}`"

def firstRepeat? (seen : List String) : List String → Option String
  | [] => none
  | name :: rest => if seen.contains name then some name else firstRepeat? (name :: seen) rest

namespace Function

/-- The first operand that no earlier operation defines, with the name of its operation. -/
def undefinedOperand? (defined : List String) : List Operation → Option (String × String)
  | [] => none
  | op :: rest =>
    match op.operands.find? fun x => !defined.contains x with
    | some x => some (x, op.name?.getD "<anonymous>")
    | none => undefinedOperand? (defined ++ op.results.map Value.name) rest

def undefinedOutput? (f : Function) : Option String :=
  f.outputs.find? fun x => !(f.values.map Value.name).contains x

def fault? (f : Function) : Option GraphError :=
  match undefinedOperand? [] f.ops with
  | some (operand, op) => some (.undefinedOperand operand op)
  | none => f.undefinedOutput?.map .unknownValue

end Function

namespace Module

def valueNames (m : Module) : List String :=
  m.functions.flatMap fun f => f.values.map Value.name

def fault? (m : Module) : Option GraphError :=
  match firstRepeat? [] m.valueNames with
  | some name => some (.duplicateValue name)
  | none => m.functions.findSome? Function.fault?

def validate (m : Module) : Except GraphError Unit :=
  match m.fault? with
  | some e => .error e
  | none => .ok ()

end Module
end Calibration
