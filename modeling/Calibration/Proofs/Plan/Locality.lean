import Calibration.Annotation
import Calibration.Proofs.IndexedWalk

/-! # A plan acts operation by operation

The edits of a plan name their places, and they are made one after another on the whole module. Since a
finding names the operation for which it was made, the module that results is the one in which every
operation has been changed by its own findings, each as it stood in the module that was planned for.
-/
namespace Calibration

namespace Edit

def function : Edit → Nat
  | .setType function .. => function
  | .setAttr function .. => function

def op : Edit → Nat
  | .setType _ op .. => op
  | .setAttr _ op .. => op

def change : Edit → Operation → Operation
  | .setType _ _ result type, o => o.setElement result (.calibrated type)
  | .setAttr _ _ key value, o => o.setAttr key value

theorem apply_eq (m : Module) (e : Edit) :
    e.apply m = m.modifyFunction e.function fun f => f.modifyOp e.op e.change := by
  cases e <;> rfl

theorem foldl_apply (es : List Edit) (m : Module) :
    es.foldl apply m = { m with
      functions := es.foldl
        (fun fs e => fs.modify e.function fun f => f.modifyOp e.op e.change) m.functions } := by
  induction es generalizing m with
  | nil => rfl
  | cons e es ih =>
    rw [List.foldl_cons, ih, apply_eq]
    rfl

theorem foldl_modifyOp (es : List Edit) (f : Function) :
    es.foldl (fun f e => f.modifyOp e.op e.change) f =
      { f with ops := es.foldl (fun ops e => ops.modify e.op e.change) f.ops } := by
  induction es generalizing f with
  | nil => rfl
  | cons e es ih =>
    rw [List.foldl_cons, ih]
    rfl

end Edit

namespace Finding

def change : Finding → Operation → Operation
  | .typed result _ _ type, o => o.setElement result (.calibrated type)
  | .weightScales _ vector, o => o.setAttr weightScaleKey (.floats vector.scales)
  | .outputBoundary _ p, o =>
    (o.setAttr outputScaleKey (.float p.scale)).setAttr outputZeroKey (.int p.zeroPoint)
  | .inputBoundary _ p, o =>
    (o.setAttr inputScaleKey (.float p.scale)).setAttr inputZeroKey (.int p.zeroPoint)
  | .missingRecord .., o | .unusedWeight _, o | .sharedWeight .., o | .channelCount .., o
  | .overflow, o => o

theorem edits_place (x : Finding) (i j : Nat) :
    ∀ e ∈ x.edits i j, e.function = i ∧ e.op = j := by
  cases x <;> simp [edits, Edit.function, Edit.op]

theorem foldl_edits (i j : Nat) (x : Finding) (o : Operation) :
    (x.edits i j).foldl (fun o e => e.change o) o = x.change o := by
  cases x <;> rfl

end Finding

variable (tables : Tables) (settings : Settings)

def Operation.calibrated (f : Function) (op : Operation) : Operation :=
  (opFindings tables settings f op).foldl (fun o x => x.change o) op

def Function.calibrated (f : Function) : Function :=
  { f with ops := f.ops.map fun op => op.calibrated tables settings f }

def Module.calibrated (m : Module) : Module :=
  { m with functions := m.functions.map fun f => f.calibrated tables settings }

/-- The edits of a plan, operation by operation. -/
theorem Plan.edits_ofFindings (m : Module) :
    (Plan.ofFindings (moduleFindings tables settings m)).edits = m.functions.zipIdx.flatMap fun p =>
      p.1.ops.zipIdx.flatMap fun q =>
        (opFindings tables settings p.1 q.1).flatMap fun x => x.edits p.2 q.2 := by
  simp only [Plan.ofFindings, moduleFindings, functionFindings, List.flatMap_assoc, List.flatMap_map]
  rfl

private def functionEdits (f : Function) (i : Nat) : List Edit :=
  f.ops.zipIdx.flatMap fun q => (opFindings tables settings f q.1).flatMap fun x => x.edits i q.2

private theorem functionEdits_function {f : Function} {i : Nat} {e : Edit}
    (h : e ∈ functionEdits tables settings f i) : e.function = i := by
  obtain ⟨q, -, h⟩ := List.mem_flatMap.1 h
  obtain ⟨x, -, h⟩ := List.mem_flatMap.1 h
  exact (x.edits_place i q.2 e h).1

private theorem foldl_functionEdits (f : Function) (i : Nat) :
    (functionEdits tables settings f i).foldl (fun f e => f.modifyOp e.op e.change) f =
      f.calibrated tables settings := by
  rw [Edit.foldl_modifyOp]
  refine congrArg (fun ops => { f with ops := ops }) (foldl_edits Edit.change
    (fun op j => (opFindings tables settings f op).flatMap fun x => x.edits i j) _ ?_ ?_ f.ops)
  · intro op j e he ops
    obtain ⟨x, -, he⟩ := List.mem_flatMap.1 he
    rw [(x.edits_place i j e he).2]
  · intro op j
    rw [List.foldl_flatMap]
    simp only [Finding.foldl_edits]
    rfl

/-- Planning and applying a plan is a change of every operation on its own. -/
theorem Plan.apply_ofFindings (m : Module) :
    (Plan.ofFindings (moduleFindings tables settings m)).apply m =
      m.calibrated tables settings := by
  rw [Plan.apply, Plan.edits_ofFindings, Edit.foldl_apply]
  refine congrArg (fun fs => { m with functions := fs })
    (foldl_edits (fun e f => f.modifyOp e.op e.change) (functionEdits tables settings) _ ?_ ?_
      m.functions)
  · intro f i e he fs
    rw [functionEdits_function tables settings he]
  · exact foldl_functionEdits tables settings

end Calibration
