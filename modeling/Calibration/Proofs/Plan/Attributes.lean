import Calibration.Proofs.Filing
import Calibration.Proofs.Plan.Form
import Calibration.Proofs.Plan.Retyping

/-! # The attributes after a calibration

Findings set attributes of the operation for which they are made, over those that were there. Which ones is
told from the form of the function, the tables and the mode; neither the types nor the precision matter.
-/
namespace Calibration

namespace Finding

def attrs : Finding → List (String × Attribute)
  | .weightScales _ vector => [(weightScaleKey, .floats vector.scales)]
  | .outputBoundary _ p => [(outputScaleKey, .float p.scale), (outputZeroKey, .int p.zeroPoint)]
  | .inputBoundary _ p => [(inputScaleKey, .float p.scale), (inputZeroKey, .int p.zeroPoint)]
  | .typed .. | .missingRecord .. | .unusedWeight _ | .sharedWeight .. | .channelCount ..
  | .overflow => []

theorem change_attrs (x : Finding) (op : Operation) :
    (x.change op).attrs = op.attrs.insertAll x.attrs := by
  cases x <;> rfl

theorem change_operands (x : Finding) (op : Operation) : (x.change op).operands = op.operands := by
  cases x <;> rfl

theorem foldl_change_attrs (xs : List Finding) (op : Operation) :
    (xs.foldl (fun o x => x.change o) op).attrs = op.attrs.insertAll (xs.flatMap attrs) := by
  induction xs generalizing op with
  | nil => rfl
  | cons x xs ih =>
    rw [List.foldl_cons, ih, change_attrs, List.flatMap_cons, NameMap.insertAll_append]

end Finding

variable (tables : Tables) (settings : Settings)

def attrsSet (f : Function) (op : Operation) : List (String × Attribute) :=
  (opFindings tables settings f op).flatMap Finding.attrs

variable {tables settings}

theorem Operation.calibrated_operands (f : Function) (op : Operation) :
    (op.calibrated tables settings f).operands = op.operands :=
  Finding.foldl_change_of_eq Finding.change_operands _ op

theorem Operation.calibrated_attrs (f : Function) (op : Operation) :
    (op.calibrated tables settings f).attrs = op.attrs.insertAll (attrsSet tables settings f op) :=
  Finding.foldl_change_attrs _ op

theorem valueFindings_attrs (op : Operation) :
    (valueFindings tables settings op).flatMap Finding.attrs = [] := by
  rw [List.flatMap_eq_nil_iff]
  intro x hx
  obtain ⟨k, v, hv, h⟩ := mem_valueFindings.1 hx
  obtain ⟨t, ht, hd, ⟨hr, rfl⟩ | ⟨source, r, hr, rfl⟩⟩ := valueFinding?_eq_some_iff.1 h
  · rfl
  · cases settings.typeFor? op.kind source r <;> rfl

theorem attrsSet_of_form {f f' : Function} (hf : f.form = f'.form) {op op' : Operation}
    (hop : op.form = op'.form) {asymmetric : Bool} (p p' : Precision) :
    attrsSet tables ⟨asymmetric, p⟩ f op = attrsSet tables ⟨asymmetric, p'⟩ f' op' := by
  have hk : op.kind = op'.kind := Operation.kind_of_form hop
  have hb : boundaryFindings tables ⟨asymmetric, p⟩ f op =
      boundaryFindings tables ⟨asymmetric, p'⟩ f' op' :=
    boundaryFindings_of_form hf hop tables ⟨asymmetric, p⟩
  unfold attrsSet
  rcases op.kind.isCalibrated_or_weight_or_plumbing with hc | hw | ⟨name, hw⟩
  · rw [opFindings_of_calibrated hc, opFindings_of_calibrated (hk ▸ hc), List.flatMap_append,
      List.flatMap_append, valueFindings_attrs, valueFindings_attrs, hk, hb]
  · rw [opFindings_of_weight hw, opFindings_of_weight (hk ▸ hw), weightFindings_of_form hf hop]
  · rw [opFindings_of_plumbing hw, opFindings_of_plumbing (hk ▸ hw)]

theorem Value.calibrated_form (kind : OpKind) (v : Value) :
    (v.calibrated tables settings kind).form = v.form := by
  refine Prod.ext (v.calibrated_name kind) ?_
  unfold Value.calibrated
  cases valueFinding? tables settings kind v 0 with
  | none => rfl
  | some x =>
    cases x with
    | typed =>
      cases ht : v.type with
      | none => simp [Value.form, Finding.changeValue, ht]
      | tensor t => simp [Value.form, Finding.changeValue, ht, ValueType.tensor?]
    | _ => rfl

theorem Operation.calibrated_form (f : Function) (op : Operation) :
    (op.calibrated tables settings f).form = op.form := by
  have hresults : (op.calibrated tables settings f).results.map Value.form =
      op.results.map Value.form := by
    rw [op.calibrated_results f]
    split
    · rw [List.map_map]
      exact List.map_congr_left fun v _ => v.calibrated_form op.kind
    · rfl
  unfold form
  rw [op.calibrated_kind f, op.calibrated_operands f, hresults]

theorem Function.calibrated_form (f : Function) : (f.calibrated tables settings).form = f.form := by
  unfold form calibrated
  rw [List.map_map]
  exact List.map_congr_left fun op _ => op.calibrated_form f

end Calibration
