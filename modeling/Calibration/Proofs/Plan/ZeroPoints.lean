import Calibration.Proofs.Plan.Footprint
import Calibration.Proofs.Quant.Grid

/-! # The grids of a calibrated module

Types and boundaries are made from ranges that are taken from records, and nothing is asked of a record. Still
every type with integer storage that a calibration writes has its zero point on the grid of its width, and so
has every boundary. A range whose zero point cannot be summed up leads to neither.
-/
namespace Calibration

variable {tables : Tables} {settings : Settings} {f : Function} {op : Operation}

theorem OutputBoundary.contains {p : Affine} (h : OutputBoundary tables settings f op p) :
    Grid.Contains ⟨-128, 127⟩ p.zeroPoint := by
  cases h with
  | intro _ hp => exact Affine.contains_of_derive? (Grid.isSigned_forBits 8 settings.asymmetric) hp

theorem InputBoundary.contains {p : Affine} (h : InputBoundary tables settings f op p) :
    Grid.Contains (if settings.asymmetric then ⟨-8, 7⟩ else ⟨-7, 7⟩) p.zeroPoint := by
  cases h with
  | intro _ hp => exact Affine.contains_of_derive? (Grid.isSigned_forBits 4 settings.asymmetric) hp

namespace Module
variable {m m' : Module} {plan : Plan}

/-- What a plan types is found in the module afterwards. -/
theorem CalibratedBy.exists_resultAt (h : m.CalibratedBy tables settings plan m') {i j k : Nat}
    {type : CalibratedType} (htype : plan.Types i j k type) :
    type.OnGrid settings.asymmetric ∧
      ∃ name shape, m'.ResultAt i j k ⟨name, .tensor ⟨shape, .calibrated type⟩⟩ := by
  obtain ⟨f, op, hat, name, old, hx⟩ := h.types_iff.1 htype
  cases made_of_mem hx with
  | @typed k v t source r type hk hv ht hd hr htype =>
    have hresult := h.resultAt hat hv
    rw [if_pos hk, Value.calibrated_of_lookup ht hd hr htype] at hresult
    exact ⟨CalibratedType.onGrid_of_ofRange? htype, _, _, hresult⟩
  | boundary hb => cases hb

/-- Whatever the records are, numbers or not and in any order, all types and zero points that a calibration
writes lie on the grids of their widths. For the map of a range onto a grid that holds of every width, every mode and
every pair of bounds, and there is no map in one case only: where the sum of a zero point is below all words. -/
theorem zero_points_on_grids (tables : Tables) (settings : Settings) (m : Module) (bits : Nat)
    (asymmetric : Bool) (min max : Float) :
    (∀ (m' : Module) (s : Summary), m.annotate tables settings = (m', .ok s) →
      ∃ plan, m.CalibratedBy tables settings plan m' ∧
        (∀ i j k type, plan.Types i j k type → type.OnGrid settings.asymmetric ∧
          ∃ name shape, m'.ResultAt i j k ⟨name, .tensor ⟨shape, .calibrated type⟩⟩) ∧
        (∀ i j a, plan.Gives i j outputZeroKey a →
          ∃ z, a = .int z ∧ Grid.Contains ⟨-128, 127⟩ z) ∧
        ∀ i j a, plan.Gives i j inputZeroKey a →
          ∃ z, a = .int z ∧ Grid.Contains (if settings.asymmetric then ⟨-8, 7⟩ else ⟨-7, 7⟩) z) ∧
    (Grid.forBits bits asymmetric).IsSigned ∧
    (∀ p, Affine.derive? min max (.forBits bits asymmetric) = some p →
      p.grid = .forBits bits asymmetric ∧ (Grid.forBits bits asymmetric).Contains p.zeroPoint) ∧
    (Affine.derive? min max (.forBits bits asymmetric) = none ↔ Affine.Sums min max ∧
      Affine.sum min max (.forBits bits asymmetric) < Int64.minValue.toInt) := by
  constructor
  · intro m' s h
    obtain ⟨plan, hplan⟩ := exists_calibratedBy h
    refine ⟨plan, hplan, fun i j k type => hplan.exists_resultAt, ?_, ?_⟩
    · intro i j a ha
      obtain ⟨f, op, hat, ha⟩ := hplan.gives_iff.1 ha
      obtain ⟨p, hp, rfl⟩ := (mem_attrsSet_of_key a).2.1.1 ha
      exact ⟨_, rfl, hp.contains⟩
    · intro i j a ha
      obtain ⟨f, op, hat, ha⟩ := hplan.gives_iff.1 ha
      obtain ⟨p, hp, rfl⟩ := (mem_attrsSet_of_key a).2.2.2.1 ha
      exact ⟨_, rfl, hp.contains⟩
  · have hsigned := Grid.isSigned_forBits bits asymmetric
    exact ⟨hsigned, fun p hp => ⟨Affine.derive?_grid hp, Affine.contains_of_derive? hsigned hp⟩,
      Affine.derive?_eq_none_iff hsigned⟩

/-- The tables of `crossing` with records that no statistics have: bounds that are not numbers, infinite ones,
and others in the wrong order or too far apart. -/
def hostileTables : Tables :=
  { default := .ofList [("x", ⟨0 / 0, 1, -1⟩), ("r", ⟨1 / 0, 0 / 0, 1⟩), ("c", ⟨4, -1e308, 1.5e308⟩),
      ("s", ⟨-1, 3, 0⟩), ("e", ⟨8, -1 / 0, 1 / 0⟩)]
    int4 := .ofList [("r", ⟨0, 1 / 0, -1 / 0⟩), ("d", ⟨-3, -1 / 0, 5⟩)]
    channelScales := .empty }

theorem zero_points_on_grids_hostile : ∃ m' plan,
    crossing.CalibratedBy hostileTables ⟨true, .int8⟩ plan m' ∧
    (∃ type, plan.Types 0 3 0 type ∧ type.storage = .int4 ∧ type.OnGrid true) ∧
    (∃ z, plan.Gives 0 2 outputZeroKey (.int z) ∧ Grid.Contains ⟨-128, 127⟩ z) ∧
    (∃ z, plan.Gives 0 2 inputZeroKey (.int z) ∧ Grid.Contains ⟨-8, 7⟩ z) ∧
    (∃ p, Affine.derive? 1e290 1e291 (.forBits 64 true) = some p ∧
      (Grid.forBits 64 true).Contains p.zeroPoint) ∧
    Affine.Sums 1e308 1.5e308 ∧ Affine.sum 1e308 1.5e308 (.forBits 8 true) < Int64.minValue.toInt ∧
      Affine.derive? 1e308 1.5e308 (.forBits 8 true) = none := by
  have hrun : crossing.annotate hostileTables ⟨true, .int8⟩ =
      ((crossing.annotate hostileTables ⟨true, .int8⟩).1, .ok ⟨6, 0, 1, 2⟩) :=
    run_eq_of_snd (by decide +kernel)
  obtain ⟨hwritten, -, hwide, -⟩ :=
    zero_points_on_grids hostileTables ⟨true, .int8⟩ crossing 64 true 1e290 1e291
  obtain ⟨plan, hplan, htypes, hout, hin⟩ := hwritten _ _ hrun
  have htyped : .typed 0 "d" .f32 ⟨.int4, -1 / 0, 5, some ⟨1 / 0, -8, .int4⟩⟩ ∈
      opFindings hostileTables ⟨true, .int8⟩ crossingMain (crossingOp .matMul ["r"] "d") :=
    mem_of_made (@Made.typed _ _ _ _ 0 ⟨"d", .tensor ⟨[1, 4], .f32⟩⟩ ⟨[1, 4], .f32⟩ .int4
      ⟨-3, -1 / 0, 5⟩ _ rfl rfl rfl rfl rfl (by decide +kernel))
  have htype := hplan.types_iff.2 ⟨_, _, crossing_product, "d", .f32, htyped⟩
  have hleaves : OutputBoundary hostileTables ⟨true, .int8⟩ crossingMain
      (crossingOp .conv ["r"] "c") ⟨1 / 0, -128, .int8⟩ :=
    .intro (@OutputCrossing.intro _ _ _ "c" (crossingOp .sigmoid ["c"] "s") ⟨4, -1e308, 1.5e308⟩
      (.inl rfl) rfl rfl (List.mem_of_getElem? (i := 4) rfl) List.mem_cons_self ⟨nofun, nofun⟩)
      (by decide +kernel)
  have henters : InputBoundary hostileTables ⟨true, .int8⟩ crossingMain
      (crossingOp .conv ["r"] "c") ⟨1, 0, .int4⟩ :=
    .intro (@InputCrossing.intro _ _ _ "r" (crossingOp (.inferable "Relu") ["x"] "r")
      ⟨0, 1 / 0, -1 / 0⟩ (.inl rfl) nofun rfl (Function.producer?_eq_some_iff.1 rfl) nofun
      ⟨nofun, nofun⟩ rfl) (by decide +kernel)
  have hgivesOut := (hplan.gives_iff_at crossing_conv).2
    ((mem_attrsSet_of_key _).2.1.2 ⟨_, hleaves, rfl⟩)
  have hgivesIn := (hplan.gives_iff_at crossing_conv).2
    ((mem_attrsSet_of_key _).2.2.2.2 ⟨_, henters, rfl⟩)
  obtain ⟨z, hz, hleft⟩ := hout 0 2 _ hgivesOut
  obtain ⟨z', hz', hentered⟩ := hin 0 2 _ hgivesIn
  obtain ⟨-, -, -, hfar⟩ :=
    zero_points_on_grids hostileTables ⟨true, .int8⟩ crossing 8 true 1e308 1.5e308
  have hderived : ∃ p, Affine.derive? 1e290 1e291 (.forBits 64 true) = some p :=
    Option.isSome_iff_exists.1 (by decide +kernel)
  obtain ⟨p, hp⟩ := hderived
  have hnone : Affine.derive? 1e308 1.5e308 (.forBits 8 true) = none := by decide +kernel
  exact ⟨_, plan, hplan, ⟨_, htype, rfl, (htypes _ _ _ _ htype).1⟩, ⟨z, hz ▸ hgivesOut, hleft⟩,
    ⟨z', hz' ▸ hgivesIn, hentered⟩, ⟨p, hp, (hwide p hp).2⟩, (hfar.1 hnone).1, (hfar.1 hnone).2, hnone⟩

/-- The bounds are finite and in order, and still there is no map. -/
theorem derive?_of_far_range : (1e308 : Float).isFinite = true ∧ (1.5e308 : Float).isFinite = true ∧
    (1e308 : Float) < 1.5e308 ∧ Affine.derive? 1e308 1.5e308 (.forBits 8 true) = none := by
  refine ⟨?_, ?_, ?_, ?_⟩ <;> decide +kernel

end Module
end Calibration
