import Calibration.Proofs.Plan.Recalibration

/-! # The edits of a plan, place by place

A successful calibration makes the edits of one plan. An edit is in it because of a finding for the
operation at its place, and no attribute is set twice for one operation, so what an operation holds
afterwards under a key is what the plan gives it there, or what it held before.
-/
namespace Calibration

/-- The part of a module that an edit overwrites. -/
inductive Edit.Target where
  | result (function op result : Nat)
  | attribute (function op : Nat) (key : String)
  deriving DecidableEq

def Edit.target : Edit → Edit.Target
  | .setType function op result _ => .result function op result
  | .setAttr function op key _ => .attribute function op key

def Plan.Gives (plan : Plan) (i j : Nat) (key : String) (a : Attribute) : Prop :=
  .setAttr i j key a ∈ plan.edits

def Plan.Types (plan : Plan) (i j k : Nat) (type : CalibratedType) : Prop :=
  .setType i j k type ∈ plan.edits

namespace Finding

theorem setAttr_mem_edits {x : Finding} {i j i' j' : Nat} {key : String} {a : Attribute} :
    .setAttr i' j' key a ∈ x.edits i j ↔ i' = i ∧ j' = j ∧ (key, a) ∈ x.attrs := by
  cases x <;> simp [edits, attrs, ← and_or_left]

theorem setType_mem_edits {x : Finding} {i j i' j' k : Nat} {type : CalibratedType} :
    .setType i' j' k type ∈ x.edits i j ↔
      i' = i ∧ j' = j ∧ ∃ name old, x = .typed k name old type := by
  cases x <;> simp [edits, eq_comm]

end Finding

variable {tables : Tables} {settings : Settings}

theorem Plan.mem_edits_iff {m : Module} {e : Edit} :
    e ∈ (Plan.ofFindings (moduleFindings tables settings m)).edits ↔
      ∃ i j f op, m.OpAt i j f op ∧ ∃ x ∈ opFindings tables settings f op, e ∈ x.edits i j := by
  constructor
  · intro h
    obtain ⟨l, hl, he⟩ := List.mem_flatMap.1 h
    obtain ⟨f, op, hat, hx⟩ := mem_moduleFindings.1 hl
    exact ⟨l.function, l.op, f, op, hat, l.finding, hx, he⟩
  · rintro ⟨i, j, f, op, hat, x, hx, he⟩
    exact List.mem_flatMap.2 ⟨⟨i, j, x⟩, mem_moduleFindings.2 ⟨f, op, hat, hx⟩, he⟩

/-- A plan that is made consists of the edits of all findings. -/
theorem Plan.eq_of_make {m : Module} {plan : Plan} (h : Plan.make tables settings m = .ok plan) :
    plan = Plan.ofFindings (moduleFindings tables settings m) := by
  unfold Plan.make at h
  cases hf : (moduleFindings tables settings m).findSome? Located.stop? with
  | some e => simp [hf] at h
  | none =>
    simp only [hf] at h
    exact (Except.ok.inj h).symm

section AttributeKeys

theorem attrsSet_of_isConvOrMatMul {f : Function} {op : Operation}
    (hk : op.kind.isConvOrMatMul = true) :
    attrsSet tables settings f op = (boundaryFindings tables settings f op).flatMap Finding.attrs := by
  rw [attrsSet, opFindings_of_calibrated (OpKind.isCalibrated_of_isConvOrMatMul hk), if_pos hk,
    List.flatMap_append, valueFindings_attrs, List.nil_append]

theorem attrsSet_of_weight {f : Function} {op : Operation} (hk : op.kind = .weight) :
    attrsSet tables settings f op = (weightFindings tables f op).flatMap Finding.attrs := by
  rw [attrsSet, opFindings_of_weight hk]

theorem attrsSet_of_other {f : Function} {op : Operation} (hk : op.kind.isConvOrMatMul = false)
    (hw : op.kind ≠ .weight) : attrsSet tables settings f op = [] := by
  rcases op.kind.isCalibrated_or_weight_or_plumbing with hc | hw' | ⟨name, hp⟩
  · rw [attrsSet, opFindings_of_calibrated hc, hk, List.flatMap_append, valueFindings_attrs]
    rfl
  · exact absurd hw' hw
  · rw [attrsSet, opFindings_of_plumbing hp, List.flatMap_nil]

/-- A weight is given one attribute at most. -/
theorem weightFindings_attrs (f : Function) (op : Operation) :
    (weightFindings tables f op).flatMap Finding.attrs = [] ∨
      ∃ a, (weightFindings tables f op).flatMap Finding.attrs = [(weightScaleKey, a)] := by
  have hshared (p : Prop) [Decidable p] (name consumer : String) :
      (if p then [Finding.sharedWeight name consumer] else []).flatMap Finding.attrs = [] := by
    split <;> rfl
  unfold weightFindings
  cases op.name? with
  | none => exact .inl rfl
  | some name =>
    simp only
    cases (f.users name).head?.bind Operation.name? with
    | none => exact .inl rfl
    | some consumer =>
      simp only [List.flatMap_append, hshared, List.nil_append]
      cases tables.weightScales consumer with
      | none => exact .inl rfl
      | some vector =>
        cases op.channels? with
        | none => exact .inr ⟨_, rfl⟩
        | some n =>
          simp only
          split
          · exact .inr ⟨_, rfl⟩
          · exact .inl rfl

theorem attrsSet_of_weightScales {f : Function} {op : Operation} {name : String}
    {vector : ChannelScales} (h : .weightScales name vector ∈ opFindings tables settings f op) :
    attrsSet tables settings f op = [(weightScaleKey, .floats vector.scales)] := by
  have hk : op.kind = .weight := by
    cases made_of_mem h with
    | weightScales hk => exact hk
    | boundary hb => cases hb
  have hmem : (weightScaleKey, .floats vector.scales) ∈ attrsSet tables settings f op :=
    List.mem_flatMap.2 ⟨_, h, List.mem_singleton_self _⟩
  rw [attrsSet_of_weight hk] at hmem ⊢
  obtain hnil | ⟨a, ha⟩ := @weightFindings_attrs tables f op
  · rw [hnil] at hmem
    cases hmem
  · rw [ha] at hmem ⊢
    rw [List.mem_singleton.1 hmem]

theorem outputBoundary?_keys (f : Function) (op : Operation) (name : String) :
    (((outputBoundary? tables settings f op name).toList.flatMap Finding.attrs).map Prod.fst).Sublist
      [outputScaleKey, outputZeroKey] := by
  unfold outputBoundary?
  split
  · cases tables.default.get? name with
    | none => exact List.nil_sublist _
    | some r =>
      cases hp : op.kind.affine? r settings.asymmetric 8 with
      | none => simp [hp, Finding.attrs]
      | some p => simp [hp, Finding.attrs]
  · exact List.nil_sublist _

theorem inputBoundary?_keys (f : Function) (op : Operation) (name : String) :
    (((inputBoundary? tables settings f op name).toList.flatMap Finding.attrs).map Prod.fst).Sublist
      [inputScaleKey, inputZeroKey] := by
  rw [inputBoundary?_eq]
  cases f.entry? op with
  | none => exact List.nil_sublist _
  | some entry =>
    rw [Option.bind_some]
    cases tables.int4.get? entry.1 with
    | none => exact List.nil_sublist _
    | some r =>
      cases hp : entry.2.affine? r settings.asymmetric 4 with
      | none => simp [hp, Finding.attrs]
      | some p => simp [hp, Finding.attrs]

theorem boundaryFindings_keys (f : Function) (op : Operation) :
    (((boundaryFindings tables settings f op).flatMap Finding.attrs).map Prod.fst).Sublist
      [outputScaleKey, outputZeroKey, inputScaleKey, inputZeroKey] := by
  cases hn : op.name? with
  | none =>
    rw [boundaryFindings_of_nameless hn]
    exact List.nil_sublist _
  | some name =>
    rw [boundaryFindings_of_name? hn, List.flatMap_append, List.map_append]
    exact (outputBoundary?_keys f op name).append (inputBoundary?_keys f op name)

/-- No attribute of an operation is set twice. -/
theorem attrsSet_keys_nodup (f : Function) (op : Operation) :
    ((attrsSet tables settings f op).map Prod.fst).Nodup := by
  cases hk : op.kind.isConvOrMatMul with
  | true =>
    rw [attrsSet_of_isConvOrMatMul hk]
    exact (boundaryFindings_keys f op).nodup (by decide)
  | false =>
    by_cases hw : op.kind = .weight
    · rw [attrsSet_of_weight hw]
      obtain h | ⟨a, h⟩ := @weightFindings_attrs tables f op <;> simp [h]
    · simp [attrsSet_of_other hk hw]

end AttributeKeys

/-- The calibration of `m` with this table and these settings makes the edits of `plan` and ends in
`m'`. -/
structure Module.CalibratedBy (tables : Tables) (settings : Settings) (m : Module) (plan : Plan)
    (m' : Module) : Prop where
  planned : Plan.make tables settings m = .ok plan
  run : m.annotate tables settings = (m', .ok plan.summary)
  edited : m' = { (plan.apply m).refresh.1 with state := .topCalibrated }

namespace Module

/-- Every calibration that succeeds has a plan. -/
theorem exists_calibratedBy {m m' : Module} {s : Summary}
    (h : m.annotate tables settings = (m', .ok s)) :
    ∃ plan, m.CalibratedBy tables settings plan m' := by
  refine ⟨Plan.ofFindings (moduleFindings tables settings m), ?_⟩
  have hend := annotate_ending tables settings m
  rw [h] at hend
  cases hend with
  | done hs hv hf =>
    have hplan : Plan.make tables settings m =
        .ok (Plan.ofFindings (moduleFindings tables settings m)) := by
      simp only [Plan.make, hf]
    exact ⟨hplan, h, by rw [Plan.apply_ofFindings]⟩

theorem checkState_eq_ok_iff {m : Module} : m.checkState = .ok () ↔ m.state = .topF32 := by
  unfold checkState
  split <;> simp_all

/-- A float graph that is well formed is calibrated unless a finding is a reason to stop. -/
theorem exists_calibratedBy_of_findSome? {m : Module} (hs : m.state = .topF32)
    (hv : m.validate = .ok ())
    (hf : (moduleFindings tables settings m).findSome? Located.stop? = none) :
    ∃ plan m', m.CalibratedBy tables settings plan m' := by
  obtain ⟨s, h⟩ := annotate_eq_ok_iff.2 ⟨hs, hv, findSome?_moduleFindings_eq_none_iff.1 hf, rfl⟩
  obtain ⟨plan, hplan⟩ := exists_calibratedBy h
  exact ⟨plan, _, hplan⟩

namespace CalibratedBy

variable {m m' : Module} {plan : Plan} (h : m.CalibratedBy tables settings plan m')
include h

theorem clear : (moduleFindings tables settings m).findSome? Located.stop? = none :=
  findSome?_moduleFindings_eq_none_iff.2 (annotate_eq_ok_iff.1 ⟨_, h.run⟩).2.2.1

theorem typable : ∀ f ∈ m.functions, ∀ op ∈ f.ops, op.Typable tables settings :=
  typable_of_findSome? h.clear

theorem plan_eq : plan = Plan.ofFindings (moduleFindings tables settings m) := Plan.eq_of_make h.planned

theorem result_eq :
    m' = ⟨m.name, .topCalibrated, calibratedFunctions tables settings m.functions⟩ :=
  (annotate_eq_ok_iff.1 ⟨_, h.run⟩).2.2.2

theorem name_eq : m'.name = m.name := by rw [h.result_eq]

theorem state_eq : m'.state = .topCalibrated := by rw [h.result_eq]

theorem functions_eq : m'.functions = calibratedFunctions tables settings m.functions := by
  rw [h.result_eq]

theorem mem_functions {f : Function} (hf : f ∈ m.functions) :
    (f.calibrated tables settings).refreshed ∈ m'.functions := by
  rw [h.functions_eq]
  exact List.mem_map_of_mem hf

theorem refresh_eq {f : Function} (hf : f ∈ m'.functions) : f.refresh = .ok f := by
  have hv : m'.validate = .ok () :=
    (validate_of_calibrated h.functions_eq).trans (annotate_eq_ok_iff.1 ⟨_, h.run⟩).2.1
  rw [(outputsDefined_of_validate hv f hf).refresh_eq]
  rw [h.functions_eq] at hf
  obtain ⟨f₀, -, rfl⟩ := List.mem_map.1 hf
  rfl

theorem opAt {i j : Nat} {f : Function} {op : Operation} (hat : m.OpAt i j f op) :
    m'.OpAt i j (f.calibrated tables settings).refreshed (op.calibrated tables settings f) := by
  constructor
  · rw [h.functions_eq, calibratedFunctions, List.getElem?_map, hat.function]
    rfl
  · change (f.ops.map fun op => op.calibrated tables settings f)[j]? = _
    rw [List.getElem?_map, hat.op]
    rfl

/-- Attributes are set for operations that there are, and for these reasons only. -/
theorem gives_iff {i j : Nat} {key : String} {a : Attribute} :
    plan.Gives i j key a ↔
      ∃ f op, m.OpAt i j f op ∧ (key, a) ∈ attrsSet tables settings f op := by
  rw [Plan.Gives, h.plan_eq, Plan.mem_edits_iff]
  constructor
  · rintro ⟨i', j', f, op, hat, x, hx, he⟩
    obtain ⟨rfl, rfl, ha⟩ := Finding.setAttr_mem_edits.1 he
    exact ⟨f, op, hat, List.mem_flatMap.2 ⟨x, hx, ha⟩⟩
  · rintro ⟨f, op, hat, ha⟩
    obtain ⟨x, hx, ha⟩ := List.mem_flatMap.1 ha
    exact ⟨i, j, f, op, hat, x, hx, Finding.setAttr_mem_edits.2 ⟨rfl, rfl, ha⟩⟩

theorem types_iff {i j k : Nat} {type : CalibratedType} :
    plan.Types i j k type ↔ ∃ f op, m.OpAt i j f op ∧
      ∃ name old, .typed k name old type ∈ opFindings tables settings f op := by
  rw [Plan.Types, h.plan_eq, Plan.mem_edits_iff]
  constructor
  · rintro ⟨i', j', f, op, hat, x, hx, he⟩
    obtain ⟨rfl, rfl, name, old, rfl⟩ := Finding.setType_mem_edits.1 he
    exact ⟨f, op, hat, name, old, hx⟩
  · rintro ⟨f, op, hat, name, old, hx⟩
    exact ⟨i, j, f, op, hat, _, hx, Finding.setType_mem_edits.2 ⟨rfl, rfl, name, old, rfl⟩⟩

theorem gives_iff_at {i j : Nat} {f : Function} {op : Operation} (hat : m.OpAt i j f op)
    {key : String} {a : Attribute} :
    plan.Gives i j key a ↔ (key, a) ∈ attrsSet tables settings f op := by
  rw [h.gives_iff]
  constructor
  · rintro ⟨f', op', hat', ha⟩
    obtain ⟨rfl, rfl⟩ := hat.unique hat'
    exact ha
  · exact fun ha => ⟨f, op, hat, ha⟩

/-- What the plan gives is found afterwards. -/
theorem get?_of_gives {i j : Nat} {f : Function} {op : Operation} (hat : m.OpAt i j f op)
    {key : String} {a : Attribute} (ha : plan.Gives i j key a) :
    (op.calibrated tables settings f).attrs.get? key = some a := by
  rw [op.calibrated_attrs f]
  exact NameMap.get?_insertAll_of_mem _ (attrsSet_keys_nodup f op) ((h.gives_iff_at hat).1 ha)

/-- What the plan does not give stays as it was. -/
theorem get?_of_not_gives {i j : Nat} {f : Function} {op : Operation} (hat : m.OpAt i j f op)
    {key : String} (hnone : ∀ a, ¬plan.Gives i j key a) :
    (op.calibrated tables settings f).attrs.get? key = op.attrs.get? key := by
  rw [op.calibrated_attrs f]
  refine NameMap.get?_insertAll_of_not_mem _ fun hkey => ?_
  obtain ⟨⟨_, a⟩, ha, rfl⟩ := List.mem_map.1 hkey
  exact hnone a ((h.gives_iff_at hat).2 ha)

end CalibratedBy
end Module
end Calibration
