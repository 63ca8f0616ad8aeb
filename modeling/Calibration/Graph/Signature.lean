import Calibration.Graph.Validity

/-! # Output types

The types of a function's outputs are copied from its values, for all outputs or for none. A module is
refreshed function by function, so a fault leaves the functions before it refreshed.
-/
namespace Calibration

/-- The types of the named values, or the first name without a value. -/
def Function.typesOf (f : Function) : List String → Except GraphError (List ValueType)
  | [] => .ok []
  | name :: rest =>
    match f.value? name with
    | none => .error (.unknownValue name)
    | some v => (f.typesOf rest).map (v.type :: ·)

def Function.refresh (f : Function) : Except GraphError Function :=
  (f.typesOf f.outputs).map fun types => { f with outputTypes := types }

/-- Refreshes up to the first function with an unknown output. -/
def refreshFunctions : List Function → List Function × Except GraphError Unit
  | [] => ([], .ok ())
  | f :: rest =>
    match f.refresh with
    | .error e => (f :: rest, .error e)
    | .ok f => ((f :: (refreshFunctions rest).1), (refreshFunctions rest).2)

def Module.refresh (m : Module) : Module × Except GraphError Unit :=
  ({ m with functions := (refreshFunctions m.functions).1 }, (refreshFunctions m.functions).2)

end Calibration
