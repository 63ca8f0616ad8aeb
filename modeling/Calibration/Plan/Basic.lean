import Calibration.Plan.Finding

/-! # Plans

A plan is made before a module is touched: the edits of all findings in program order, unless one of
them is a reason to stop. It is applied edit by edit, at the places noted in it.
-/
namespace Calibration

structure Summary where
  typedValues : Nat
  weightScales : Nat
  outputBoundaries : Nat
  inputBoundaries : Nat
  deriving DecidableEq, Repr

namespace Summary

def zero : Summary := ⟨0, 0, 0, 0⟩

def add (a b : Summary) : Summary :=
  ⟨a.typedValues + b.typedValues, a.weightScales + b.weightScales,
    a.outputBoundaries + b.outputBoundaries, a.inputBoundaries + b.inputBoundaries⟩

def sum (ss : List Summary) : Summary := ss.foldr add zero

end Summary

inductive Edit where
  | setType (function op result : Nat) (type : CalibratedType)
  | setAttr (function op : Nat) (key : String) (value : Attribute)
  deriving DecidableEq

namespace Edit

def apply (m : Module) : Edit → Module
  | .setType function op result type =>
    m.modifyFunction function fun f => f.modifyOp op fun o =>
      o.setElement result (.calibrated type)
  | .setAttr function op key value =>
    m.modifyFunction function fun f => f.modifyOp op fun o => o.setAttr key value

end Edit

def outputScaleKey : String := "out_int8_scale"
def outputZeroKey : String := "out_int8_zp"
def inputScaleKey : String := "in_int4_scale"
def inputZeroKey : String := "in_int4_zp"
def weightScaleKey : String := "scale"

namespace Finding

/-- The edits made for a finding at this place. -/
def edits (function op : Nat) : Finding → List Edit
  | .typed result _ _ type => [.setType function op result type]
  | .weightScales _ vector => [.setAttr function op weightScaleKey (.floats vector.scales)]
  | .outputBoundary _ p =>
    [.setAttr function op outputScaleKey (.float p.scale),
      .setAttr function op outputZeroKey (.int p.zeroPoint)]
  | .inputBoundary _ p =>
    [.setAttr function op inputScaleKey (.float p.scale),
      .setAttr function op inputZeroKey (.int p.zeroPoint)]
  | _ => []

def summary : Finding → Summary
  | .typed .. => ⟨1, 0, 0, 0⟩
  | .weightScales .. => ⟨0, 1, 0, 0⟩
  | .outputBoundary .. => ⟨0, 0, 1, 0⟩
  | .inputBoundary .. => ⟨0, 0, 0, 1⟩
  | _ => .zero

def note? : Finding → Option Log.Note
  | .typed _ name old type => some ⟨.debug, .annotator, s!"{name}: {old.label} -> {type.label}"⟩
  | .unusedWeight name =>
    some ⟨.debug, .annotator, s!"weight {name} has no named user, no channel scales attached"⟩
  | .sharedWeight name consumer =>
    some ⟨.warn, .annotator,
      s!"weight {name} has several users, taking channel scales of `{consumer}`"⟩
  | .weightScales name vector =>
    some ⟨.debug, .annotator, s!"{name}: {vector.scales.length} channel scales from {vector.name}"⟩
  | .outputBoundary name p => some (boundaryNote name outputScaleKey outputZeroKey p)
  | .inputBoundary name p => some (boundaryNote name inputScaleKey inputZeroKey p)
  | .missingRecord .. | .channelCount .. | .overflow => none
where
  boundaryNote (name scaleKey zeroKey : String) (p : Affine) : Log.Note :=
    let scale := Layout.shown p.scale
    ⟨.debug, .annotator, s!"{name}: {scaleKey}={scale} {zeroKey}={p.zeroPoint.toInt}"⟩

end Finding

structure Located where
  function : Nat
  op : Nat
  finding : Finding
  deriving DecidableEq

namespace Located

def stop? (l : Located) : Option (Stop CalibrationError) := l.finding.stop?

def edits (l : Located) : List Edit := l.finding.edits l.function l.op

end Located

variable (tables : Tables) (settings : Settings)

def functionFindings (function : Nat) (f : Function) : List Located :=
  f.ops.zipIdx.flatMap fun (op, i) =>
    (opFindings tables settings f op).map fun finding => ⟨function, i, finding⟩

/-- All findings in program order, also those after a reason to stop. -/
def moduleFindings (m : Module) : List Located :=
  m.functions.zipIdx.flatMap fun (f, i) => functionFindings tables settings i f

structure Plan where
  edits : List Edit
  summary : Summary
  deriving DecidableEq

namespace Plan

def isEmpty (p : Plan) : Bool := p.edits.isEmpty

def apply (p : Plan) (m : Module) : Module := p.edits.foldl Edit.apply m

def ofFindings (ls : List Located) : Plan :=
  ⟨ls.flatMap Located.edits, Summary.sum (ls.map fun l => l.finding.summary)⟩

/-- The plan for a module, or the first reason to stop. -/
def make (m : Module) : Except (Stop CalibrationError) Plan :=
  let found := moduleFindings tables settings m
  match found.findSome? Located.stop? with
  | some stop => .error stop
  | none => .ok (ofFindings found)

def notes (m : Module) : List Log.Note :=
  ((moduleFindings tables settings m).takeWhile fun l => l.stop?.isNone).filterMap
    fun l => l.finding.note?

end Plan
end Calibration
