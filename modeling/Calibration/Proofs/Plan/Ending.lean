import Calibration.Import.Table
import Calibration.Proofs.Graph.Outputs
import Calibration.Proofs.Plan.Locality

/-! # How a calibration ends

A module in the wrong state, a module that is not well formed and a finding that is a reason to stop are
the only ways to fail. The refresh comes after the edits, yet it cannot fail: edits keep the names of all
results, and the outputs of a well-formed module are among them.
-/
namespace Calibration

theorem Operation.setElement_names (op : Operation) (result : Nat) (e : ElementType) :
    (op.setElement result e).results.map Value.name = op.results.map Value.name := by
  apply map_modify_of_eq
  intro v
  split <;> rfl

theorem Edit.change_names (e : Edit) (op : Operation) :
    (e.change op).results.map Value.name = op.results.map Value.name := by
  cases e with
  | setType _ _ result type => exact op.setElement_names result (.calibrated type)
  | setAttr => rfl

theorem Edit.apply_outputsDefined (e : Edit) {m : Module} (h : m.OutputsDefined) :
    (e.apply m).OutputsDefined := by
  rw [apply_eq]
  exact h.modifyFunction _ fun f hf => hf.modifyOp _ e.change_names

/-- Whatever a plan does, it takes no output its value. -/
theorem Plan.apply_outputsDefined (p : Plan) {m : Module} (h : m.OutputsDefined) :
    (p.apply m).OutputsDefined := by
  unfold Plan.apply
  induction p.edits generalizing m with
  | nil => exact h
  | cons e es ih => exact ih (e.apply_outputsDefined h)

/-- A run with its result written out. -/
theorem run_eq_of_snd {α β : Type} {run : α × β} {b : β} (h : run.2 = b) : run = (run.1, b) := Prod.ext rfl h

namespace Module
variable (tables : Tables) (settings : Settings) (m : Module)

inductive Ending : Module × Except (Stop CalibrationError) Summary → Prop
  | wrongState (hs : m.state ≠ .topF32) :
    Ending (m, .error (.reported (.wrongState .topF32 m.state)))
  | malformed {e : GraphError} (hs : m.state = .topF32) (hv : m.validate = .error e) :
    Ending (m, .error (.reported (.graph e)))
  | stopped {stop : Stop CalibrationError} (hs : m.state = .topF32) (hv : m.validate = .ok ())
    (hf : (moduleFindings tables settings m).findSome? Located.stop? = some stop) :
    Ending (m, .error stop)
  | done (hs : m.state = .topF32) (hv : m.validate = .ok ())
    (hf : (moduleFindings tables settings m).findSome? Located.stop? = none) :
    Ending ({ (m.calibrated tables settings).refresh.1 with state := .topCalibrated },
      .ok (Plan.ofFindings (moduleFindings tables settings m)).summary)

/-- Planning stops at the first reason to and otherwise collects all findings. -/
theorem annotate_ending : Ending tables settings m (m.annotate tables settings) := by
  unfold annotate checkState
  by_cases hs : m.state = .topF32
  · rw [if_pos hs]
    cases hv : m.validate with
    | error e => exact .malformed hs hv
    | ok u =>
      cases hf : (moduleFindings tables settings m).findSome? Located.stop? with
      | some stop =>
        simp only [Plan.make, hf]
        exact .stopped hs hv hf
      | none =>
        have hm := outputsDefined_of_validate hv
        have hr := (Plan.apply_outputsDefined
          (Plan.ofFindings (moduleFindings tables settings m)) hm).refresh
        rw [Plan.apply_ofFindings] at hr
        have he : (m.calibrated tables settings).refresh =
          ((m.calibrated tables settings).refresh.1, .ok ()) := Prod.ext rfl hr
        simp only [Plan.make, hf, Plan.apply_ofFindings]
        rw [he]
        exact .done hs hv hf
  · rw [if_neg hs]
    exact .wrongState hs

variable {tables settings m}

theorem annotate_of_stop {stop : Stop CalibrationError} (hs : m.state = .topF32)
    (hv : m.validate = .ok ())
    (hf : (moduleFindings tables settings m).findSome? Located.stop? = some stop) :
    m.annotate tables settings = (m, .error stop) := by
  have hstate : m.checkState = .ok () := if_pos hs
  simp only [annotate, hstate, hv, Plan.make, hf]

theorem annotate_fst_of_error {stop : Stop CalibrationError}
    (h : (m.annotate tables settings).2 = .error stop) : (m.annotate tables settings).1 = m := by
  have hend := annotate_ending tables settings m
  generalize m.annotate tables settings = r at h hend
  cases hend with
  | wrongState | malformed | stopped => rfl
  | done => cases h

theorem importTable_fst_of_error {path : String} {source : Except FileFault ByteArray}
    {stop : Stop ImportError} (h : (m.importTable settings path source).2 = .error stop) :
    (m.importTable settings path source).1 = m := by
  unfold importTable at h ⊢
  cases hs : m.checkState with
  | error e => rfl
  | ok u =>
    cases hp : Table.parseFile path source with
    | error e => rfl
    | ok parsed =>
      simp only [hs, hp] at h ⊢
      cases ha : m.annotate parsed.tables settings with
      | mk m' r =>
        cases r with
        | ok s => simp [ha] at h
        | error stop =>
          have he : (m.annotate parsed.tables settings).2 = .error stop := by rw [ha]
          have hm := annotate_fst_of_error he
          rw [ha] at hm
          exact hm

/-- A calibration that fails or is broken off leaves the module as it was, and so does an import, whatever the
table file holds. After validation the refresh that follows the edits succeeds for every plan. -/
theorem failure_leaves_module_unchanged (m : Module) (settings : Settings) :
    (∀ (tables : Tables) (stop : Stop CalibrationError),
      (m.annotate tables settings).2 = .error stop → (m.annotate tables settings).1 = m) ∧
    (∀ (path : String) (source : Except FileFault ByteArray) (stop : Stop ImportError),
      (m.importTable settings path source).2 = .error stop →
        (m.importTable settings path source).1 = m) ∧
    (m.validate = .ok () → ∀ p : Plan, (p.apply m).refresh.2 = .ok ()) :=
  ⟨fun _ _ => annotate_fst_of_error, fun _ _ _ => importTable_fst_of_error,
    fun hv p => (p.apply_outputsDefined (outputsDefined_of_validate hv)).refresh⟩

def product : Module :=
  { name := "net", state := .topF32
    functions := [{
      name := "main"
      ops := [⟨.input, [], [⟨"x", .tensor ⟨[1, 4], .f32⟩⟩], .empty⟩,
        ⟨.weight, [], [⟨"w", .tensor ⟨[3, 4], .f32⟩⟩], .empty⟩,
        ⟨.matMul, ["x", "w"], [⟨"y", .tensor ⟨[1, 3], .f16⟩⟩], .empty⟩]
      outputs := ["y"]
      outputTypes := [] }] }

def productTables (scales : List Float) : Tables :=
  ((Tables.empty.insertDefault "x" ⟨1, -1, 1⟩).insertInt4 "y" ⟨2, 0, 2⟩).insertChannelScales
    "y_weight" scales

/-- Two scales are too few, a table that opens with a blank line is refused, and an edit of the only
output leaves it defined. -/
theorem failure_leaves_product_unchanged :
    (product.annotate (productTables [0.5, 0.25]) ⟨false, .int8⟩).2 =
        .error (.reported (.channelCount "y_weight" 3 2)) ∧
      (product.annotate (productTables [0.5, 0.25]) ⟨false, .int8⟩).1 = product ∧
    (product.importTable ⟨true, .bf16⟩ "t" (.ok ⟨#[0x0a]⟩)).2 =
        .error (.reported (.table (.malformed 1 ""))) ∧
      (product.importTable ⟨true, .bf16⟩ "t" (.ok ⟨#[0x0a]⟩)).1 = product ∧
    product.validate = .ok () ∧
      (Plan.apply ⟨[.setType 0 2 0 ⟨.bf16, 0, 2, none⟩], .zero⟩ product).refresh.2 = .ok () := by
  have hcount : (product.annotate (productTables [0.5, 0.25]) ⟨false, .int8⟩).2 =
    .error (.reported (.channelCount "y_weight" 3 2)) := rfl
  have hblank : (product.importTable ⟨true, .bf16⟩ "t" (.ok ⟨#[0x0a]⟩)).2 =
    .error (.reported (.table (.malformed 1 ""))) := rfl
  have hv : product.validate = .ok () := rfl
  exact ⟨hcount, (failure_leaves_module_unchanged product _).1 _ _ hcount,
    hblank, (failure_leaves_module_unchanged product _).2.1 _ _ _ hblank,
    hv, (failure_leaves_module_unchanged product ⟨false, .int8⟩).2.2 hv _⟩

end Module
end Calibration
