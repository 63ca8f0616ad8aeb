import Calibration.Proofs.Plan.Frame

/-! # The scales of weights

A weight is given the vector that is filed under the name of the first operation that reads it, whichever others
read it as well. If its shape tells how many channels it has, the vector has one scale for each. Where there is no
such vector the weight keeps the attributes that it had, and no other operation is given scales at all.
-/
namespace Calibration

variable (tables : Tables)

/-- The table has this vector for the first result of `op`, under the name of its first user. -/
inductive ScaledBy (f : Function) (op : Operation) : ChannelScales → Prop
  | intro {w : Value} {user : Operation} {consumer : String} {vector : ChannelScales}
    (hw : op.results.head? = some w) (hu : f.FirstUser w.name user) (hc : user.name? = some consumer)
    (hv : tables.channelScales.get? (consumer ++ "_weight") = some vector) : ScaledBy f op vector

variable {tables} {settings : Settings} {f : Function} {op : Operation} {vector : ChannelScales}

theorem scaledBy_iff : ScaledBy tables f op vector ↔ ∃ name consumer, op.name? = some name ∧
    f.consumer? name = some consumer ∧ tables.weightScales consumer = some vector := by
  constructor
  · rintro ⟨hw, hu, hc, hv⟩
    exact ⟨_, _, congrArg (Option.map Value.name) hw, Function.consumer?_eq_some_iff.2 ⟨_, hu, hc⟩, hv⟩
  · rintro ⟨name, consumer, hn, hc, hv⟩
    obtain ⟨w, hw, rfl⟩ := Option.map_eq_some_iff.1 hn
    obtain ⟨user, hu, hc⟩ := Function.consumer?_eq_some_iff.1 hc
    exact .intro hw hu hc hv

theorem scaledBy_of_mem {name : String} (h : .weightScales name vector ∈ opFindings tables settings f op) :
    ScaledBy tables f op vector := by
  cases made_of_mem h with
  | weightScales _ hn hc hv _ => exact scaledBy_iff.2 ⟨_, _, hn, hc, hv⟩
  | boundary hb => cases hb

/-- A vector that is not as long as its weight has channels stops a calibration. -/
theorem ScaledBy.channels_eq (h : ScaledBy tables f op vector) (hk : op.kind = .weight)
    (hnone : ∀ k stop, ¬Offends tables settings f op k stop) {n : Nat} (hn : op.channels? = some n) :
    n = vector.scales.length := by
  obtain ⟨hw, hu, hc, hv⟩ := h
  obtain ⟨w, dim, dims, element, hw', ht, hdim, rfl⟩ := Operation.channels?_eq_some_iff.1 hn
  cases hw.symm.trans hw'
  exact Classical.byContradiction fun hne => hnone _ _ (.channelCount hk hw hu hc hv ht hdim hne)

theorem ScaledBy.attrsSet_eq (h : ScaledBy tables f op vector) (hk : op.kind = .weight)
    (hch : ∀ n, op.channels? = some n → n = vector.scales.length) :
    attrsSet tables settings f op = [(weightScaleKey, .floats vector.scales)] := by
  obtain ⟨name, consumer, hn, hc, hv⟩ := scaledBy_iff.1 h
  exact attrsSet_of_weightScales (mem_of_made (.weightScales hk hn hc hv hch))

theorem attrsSet_of_not_scaledBy (hk : op.kind = .weight)
    (hnone : ∀ vector, ¬ScaledBy tables f op vector) : attrsSet tables settings f op = [] := by
  have hheavy : ¬(op.kind = .conv ∨ op.kind = .matMul) := by simp [hk]
  rw [List.eq_nil_iff_forall_not_mem]
  rintro ⟨key, a⟩ he
  obtain ⟨p, hp, -⟩ | ⟨p, hp, -⟩ | ⟨name, vector, hx, -⟩ := mem_attrsSet_iff.1 he
  · cases hp with
    | intro hc => exact hheavy hc.heavy
  · cases hp with
    | intro hc => exact hheavy hc.heavy
  · exact hnone vector (scaledBy_of_mem hx)

theorem OpKind.weightScaleKey_not_mem_calibratedKeys {kind : OpKind} (hk : kind ≠ .weight) :
    weightScaleKey ∉ kind.calibratedKeys := by
  cases kind with
  | weight => exact absurd rfl hk
  | conv | matMul => decide
  | _ => exact List.not_mem_nil

namespace Module
variable {m m' : Module} {s : Summary}

/-- After a calibration every weight has the scales that the table holds for its first user, as many as it has
channels, and one for which there are none has the attributes that it had. The attribute stays what it was on
operations of any other kind. -/
theorem weights_scaled_for_first_user (h : m.annotate tables settings = (m', .ok s)) :
    ∀ i j f op, m.OpAt i j f op → ∃ f' op', m'.OpAt i j f' op' ∧
      (op.kind = .weight →
        (∀ vector, ScaledBy tables f op vector →
          op'.attrs.get? "scale" = some (.floats vector.scales) ∧
          ∀ w dim dims element, op.results.head? = some w → w.type = .tensor ⟨dim :: dims, element⟩ →
            0 ≤ dim → dim.toInt = vector.scales.length) ∧
        ((∀ vector, ¬ScaledBy tables f op vector) → op'.attrs = op.attrs)) ∧
      (op.kind ≠ .weight → op'.attrs.get? "scale" = op.attrs.get? "scale") := by
  obtain ⟨plan, hplan⟩ := exists_calibratedBy h
  obtain ⟨-, -, hclear, -⟩ := annotate_eq_ok_iff.1 ⟨s, h⟩
  intro i j f op hat
  have hnone (k : Nat) (stop : Stop CalibrationError) : ¬Offends tables settings f op k stop := fun ho =>
    hclear (i, j, k) stop ⟨f, hat.function, op, hat.op, ho⟩
  refine ⟨_, _, hplan.opAt hat, fun hk => ⟨fun vector hv => ?_, fun hno => ?_⟩, fun hk => ?_⟩
  · have hch (n : Nat) (hn : op.channels? = some n) : n = vector.scales.length :=
      hv.channels_eq hk hnone hn
    constructor
    · rw [op.calibrated_attrs f, hv.attrsSet_eq hk hch]
      exact NameMap.get?_insert_self _ _ _
    · intro w dim dims element hw ht hdim
      have hcount := hch _ (Operation.channels?_eq_some_iff.2 ⟨w, dim, dims, element, hw, ht, hdim, rfl⟩)
      rw [← hcount, Int.toNat_of_nonneg (Int64.le_iff_toInt_le.1 hdim)]
  · rw [op.calibrated_attrs f, attrsSet_of_not_scaledBy hk hno, NameMap.insertAll_nil]
  · exact (op.framed_calibrated f).attrs _ (OpKind.weightScaleKey_not_mem_calibratedKeys hk)

def sharing : Module :=
  { name := "net", state := .topF32
    functions := [{
      name := "main"
      ops := [crossingOp .input [] "x",
        ⟨.weight, [], [⟨"w", .tensor ⟨[3, 4], .f32⟩⟩], .ofList [("scale", .floats [1])]⟩,
        ⟨.weight, [], [⟨"v", .tensor ⟨[-1, 4], .f32⟩⟩], .ofList [("layout", .str "oi")]⟩,
        ⟨.conv, ["x", "w"], [⟨"c", .tensor ⟨[1, 3], .f32⟩⟩], .ofList [("scale", .float 0.5)]⟩,
        ⟨.plumbing "Probe", ["v"], [], .empty⟩,
        crossingOp .matMul ["c", "w", "v"] "d"]
      outputs := ["d"]
      outputTypes := [] }] }

def sharingTables : Tables :=
  { default := .ofList [("x", ⟨1, -1, 1⟩), ("c", ⟨2, -2, 2⟩), ("d", ⟨4, -4, 4⟩)]
    int4 := .empty
    channelScales := .ofList [("c_weight", ⟨"c_weight", [0.5, 0.25, 0.125]⟩), ("d_weight", ⟨"d_weight", [2]⟩)] }

/-- The first weight has the scales of the convolution in place of its own, and the other has none. -/
theorem weights_scaled_for_first_user_sharing : ∃ m',
    sharing.annotate sharingTables ⟨false, .int8⟩ = (m', .ok ⟨3, 1, 0, 0⟩) ∧
    (∃ f' op', m'.OpAt 0 1 f' op' ∧ op'.attrs.get? "scale" = some (.floats [0.5, 0.25, 0.125])) ∧
    (∃ f' op', m'.OpAt 0 2 f' op' ∧ op'.attrs = .ofList [("layout", .str "oi")]) ∧
    ∃ f' op', m'.OpAt 0 3 f' op' ∧ op'.attrs.get? "scale" = some (.float 0.5) := by
  have hrun : sharing.annotate sharingTables ⟨false, .int8⟩ =
      ((sharing.annotate sharingTables ⟨false, .int8⟩).1, .ok ⟨3, 1, 0, 0⟩) :=
    run_eq_of_snd (by decide +kernel)
  have hall := weights_scaled_for_first_user hrun
  obtain ⟨f₁, op₁, hat₁, hweight₁, -⟩ := hall 0 1 _ _ ⟨rfl, rfl⟩
  obtain ⟨f₂, op₂, hat₂, hweight₂, -⟩ := hall 0 2 _ _ ⟨rfl, rfl⟩
  obtain ⟨f₃, op₃, hat₃, -, hother₃⟩ := hall 0 3 _ _ ⟨rfl, rfl⟩
  refine ⟨_, hrun, ⟨f₁, op₁, hat₁, ?_⟩, ⟨f₂, op₂, hat₂, ?_⟩, f₃, op₃, hat₃, ?_⟩
  · exact ((hweight₁ rfl).1 ⟨"c_weight", [0.5, 0.25, 0.125]⟩ (scaledBy_iff.2 ⟨"w", "c", rfl, rfl, rfl⟩)).1
  · refine (hweight₂ rfl).2 fun vector hv => ?_
    obtain ⟨name, consumer, hn, hc, -⟩ := scaledBy_iff.1 hv
    cases hn
    cases hc
  · exact hother₃ nofun

end Module
end Calibration
