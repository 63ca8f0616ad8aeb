import Calibration.Proofs.Plan.Boundaries

/-! # What a calibration leaves alone

A successful calibration changes the elements of tensors and a few attributes, both of operations of certain
kinds. All else that makes up a module stays where it is, and the types of the outputs are brought up to date.
-/
namespace Calibration

def OpKind.calibratedKeys : OpKind → List String
  | .conv | .matMul => [outputScaleKey, outputZeroKey, inputScaleKey, inputZeroKey]
  | .weight => [weightScaleKey]
  | _ => []

/-- `op'` differs from `op` at most in what a calibration may change of it. -/
structure Operation.Framed (op op' : Operation) : Prop where
  kind : op'.kind = op.kind
  operands : op'.operands = op.operands
  /-- As many results as there were, with their names and shapes, and absent where they were. -/
  forms : op'.results.map Value.form = op.results.map Value.form
  results : op.kind.isCalibrated = false → op'.results = op.results
  attrs : ∀ key ∉ op.kind.calibratedKeys, op'.attrs.get? key = op.attrs.get? key

structure Function.Framed (f f' : Function) : Prop where
  name : f'.name = f.name
  ops : List.Forall₂ Operation.Framed f.ops f'.ops
  outputs : f'.outputs = f.outputs
  outputTypes : List.Forall₂ (fun x type => ∃ v, f'.value? x = some v ∧ v.type = type) f'.outputs
    f'.outputTypes

structure Module.Framed (m m' : Module) : Prop where
  name : m'.name = m.name
  state : m'.state = .topCalibrated
  functions : List.Forall₂ Function.Framed m.functions m'.functions
  valid : m'.validate = .ok ()

variable {tables : Tables} {settings : Settings}

theorem attrsSet_keys_subset (f : Function) (op : Operation) :
    (attrsSet tables settings f op).map Prod.fst ⊆ op.kind.calibratedKeys := by
  cases hk : op.kind.isConvOrMatMul with
  | true =>
    have hkeys : op.kind.calibratedKeys =
        [outputScaleKey, outputZeroKey, inputScaleKey, inputZeroKey] := by
      rcases OpKind.isConvOrMatMul_iff.1 hk with h | h <;> rw [h] <;> rfl
    rw [attrsSet_of_isConvOrMatMul hk, hkeys]
    exact (boundaryFindings_keys f op).subset
  | false =>
    by_cases hw : op.kind = .weight
    · rw [attrsSet_of_weight hw, hw]
      rcases @weightFindings_attrs tables f op with h | ⟨a, h⟩
      · rw [h]
        exact List.nil_subset _
      · rw [h]
        exact List.Subset.refl _
    · rw [attrsSet_of_other hk hw]
      exact List.nil_subset _

theorem Operation.framed_calibrated (f : Function) (op : Operation) :
    op.Framed (op.calibrated tables settings f) where
  kind := op.calibrated_kind f
  operands := op.calibrated_operands f
  forms := Operation.results_of_form (op.calibrated_form f)
  results := by
    intro hk
    rw [op.calibrated_results f, hk]
    rfl
  attrs := by
    intro key hkey
    rw [op.calibrated_attrs f]
    exact NameMap.get?_insertAll_of_not_mem _ fun h => hkey (attrsSet_keys_subset f op h)

namespace Module
variable {m m' : Module} {plan : Plan}

theorem CalibratedBy.framed (h : m.CalibratedBy tables settings plan m') {f : Function}
    (hf : f ∈ m.functions) : f.Framed (f.calibrated tables settings).refreshed where
  name := rfl
  ops := List.forall₂_map_right_iff.2 (List.forall₂_same.2 fun op _ => op.framed_calibrated f)
  outputs := rfl
  outputTypes := Function.outputTypes_of_refresh (h.refresh_eq (h.mem_functions hf))

/-- A calibration changes no more than the state, the elements of the results of calibrated operations, the
attributes that boundaries and weights have, and the types of the outputs, which are those that the values
have by then. The module stays well formed. -/
theorem annotate_frame {s : Summary} (h : m.annotate tables settings = (m', .ok s)) : m.Framed m' := by
  obtain ⟨plan, hplan⟩ := exists_calibratedBy h
  obtain ⟨-, hv, -, -⟩ := annotate_eq_ok_iff.1 ⟨s, h⟩
  constructor
  · exact hplan.name_eq
  · exact hplan.state_eq
  · rw [hplan.functions_eq, calibratedFunctions, List.forall₂_map_right_iff, List.forall₂_same]
    exact fun f hf => hplan.framed hf
  · exact (validate_of_calibrated hplan.functions_eq).trans hv

def strided : Module :=
  { name := "net", state := .topF32
    functions := [{
      name := "main"
      ops := [crossingOp .input [] "x",
        ⟨.weight, [], [⟨"w", .tensor ⟨[3, 4], .f32⟩⟩],
          .ofList [("layout", .str "oi"), ("scale", .floats [1])]⟩,
        ⟨.conv, ["x", "w"], [⟨"c", .tensor ⟨[1, 3], .f16⟩⟩, ⟨"mask", .none⟩],
          .ofList [("stride", .int 2), ("scale", .float 0.5), ("out_int8_zp", .int 7)]⟩,
        crossingOp (.plumbing "Reshape") ["c"] "r"]
      outputs := ["r", "c", "mask"]
      outputTypes := [] }] }

def stridedTables : Tables :=
  ((Tables.empty.insertDefault "x" ⟨1, -1, 1⟩).insertDefault "c" ⟨2, -2, 2⟩).insertChannelScales "c_weight"
    [0.5, 0.25, 0.125]

/-- The weight and the boundary are given other attributes, and the convolution keeps what is called `scale`
there. -/
theorem annotate_frame_strided : ∃ m',
    strided.annotate stridedTables ⟨false, .int8⟩ = (m', .ok ⟨2, 1, 1, 0⟩) ∧ strided.Framed m' ∧
    (m'.functions.flatMap Function.ops).map (fun op => op.attrs.get? "scale") =
      [none, some (.floats [0.5, 0.25, 0.125]), some (.float 0.5), none] ∧
    (m'.functions.flatMap Function.ops).map (fun op => op.attrs.get? "out_int8_zp") =
      [none, none, some (.int 0), none] := by
  have hrun : strided.annotate stridedTables ⟨false, .int8⟩ =
      ((strided.annotate stridedTables ⟨false, .int8⟩).1, .ok ⟨2, 1, 1, 0⟩) :=
    run_eq_of_snd (by decide +kernel)
  refine ⟨_, hrun, annotate_frame hrun, ?_, ?_⟩
  · decide +kernel
  · decide +kernel

end Module
end Calibration
