import Calibration.Graph.Validity

/-! # Why a module cannot be calibrated -/
namespace Calibration

inductive CalibrationError where
  | wrongState (expected found : State)
  | missingRecord (tensor : String) (kind : OpKind)
  | channelCount (key : String) (expected found : Nat)
  | graph (e : GraphError)
  deriving DecidableEq, Repr

def CalibrationError.message : CalibrationError → String
  | .wrongState expected found =>
    s!"module is in state {found.label}, calibration import requires {expected.label}"
  | .missingRecord tensor kind => s!"no calibration record for `{tensor}` (result of {kind.label})"
  | .channelCount key expected found =>
    s!"`{key}` lists {found} channel scales but the weight has {expected} output channels"
  | .graph e => e.message

/-- Why a run ends without a result: an error is reported, or a sum leaves the words and the run is
broken off there. -/
inductive Stop (ε : Type) where
  | reported (e : ε)
  | overflow
  deriving DecidableEq, Repr

def Stop.map {ε ε' : Type} (g : ε → ε') : Stop ε → Stop ε'
  | .reported e => .reported (g e)
  | .overflow => .overflow

def Module.checkState (m : Module) : Except CalibrationError Unit :=
  if m.state = .topF32 then .ok () else .error (.wrongState .topF32 m.state)

end Calibration
