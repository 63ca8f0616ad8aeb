import Calibration.Graph.Signature
import Calibration.Plan.Basic

/-! # Calibrating a module

A module that may be calibrated and is well formed is planned for, edited, and refreshed. The module
is given back beside the result, so that what a failure leaves behind can be told.
-/
namespace Calibration
namespace Module

variable (tables : Tables) (settings : Settings)

def annotate (m : Module) : Module × Except (Stop CalibrationError) Summary :=
  match m.checkState with
  | .error e => (m, .error (.reported e))
  | .ok () =>
    match m.validate with
    | .error e => (m, .error (.reported (.graph e)))
    | .ok () =>
      match Plan.make tables settings m with
      | .error stop => (m, .error stop)
      | .ok plan =>
        match (plan.apply m).refresh with
        | (m, .error e) => (m, .error (.reported (.graph e)))
        | (m, .ok ()) => ({ m with state := .topCalibrated }, .ok plan.summary)

def annotatedNote (s : Summary) : Log.Note :=
  ⟨.info, .annotator,
    s!"calibrated {s.typedValues} values, {s.weightScales} weight scale vectors, " ++
    s!"{s.outputBoundaries} int8 output boundaries, {s.inputBoundaries} int4 input boundaries"⟩

def annotateNotes (m : Module) : List Log.Note :=
  match m.checkState, m.validate with
  | .ok (), .ok () =>
    Plan.notes tables settings m ++
      match (m.annotate tables settings).2 with
      | .ok s => [annotatedNote s]
      | .error _ => []
  | _, _ => []

end Module
end Calibration
