import Calibration.Proofs.Plan.Attributes
import Calibration.Proofs.Plan.Offender

/-! # Calibrating a second time

A calibrated module whose state is set back can be calibrated again with the same table and mode. What has
integer storage by then is final, and what has float storage is typed anew, so the result is that of the
second precision alone, or, after a first calibration to integers, what was there already. Only where the
second precision asks for a map of a range that has none does it break off, and so would the second precision
alone.
-/
namespace Calibration

variable {tables : Tables} {asymmetric : Bool} (p p' : Precision)

theorem Precision.storage_isInteger_iff (p : Precision) : p.storage.isInteger = true ↔ p = .int8 := by
  cases p <;> decide

/-- A value without a discrete element, where there is a record for it. -/
theorem Value.calibrated_of_lookup {settings : Settings} {kind : OpKind} {v : Value} {t : TensorType}
    {source : RecordSource} {r : Record} {type : CalibratedType} (ht : v.type = .tensor t)
    (hd : t.element.isDiscrete = false) (hr : tables.lookup v.name kind.isConvOrMatMul = some (source, r))
    (htype : settings.typeFor? kind source r = some type) :
    v.calibrated tables settings kind = ⟨v.name, .tensor ⟨t.shape, .calibrated type⟩⟩ := by
  have hx : valueFinding? tables settings kind v 0 = some (.typed 0 v.name t.element type) :=
    valueFinding?_eq_some_iff.2 ⟨t, ht, hd, .inr ⟨source, r, hr, by rw [htype]; rfl⟩⟩
  rw [Value.calibrated, hx, Option.elim_some, Finding.changeValue]
  simp only [ht]

/-- All other values stay as they are. -/
theorem Value.calibrated_of_not_lookup {settings : Settings} {kind : OpKind} {v : Value}
    (h : ∀ t, v.type = .tensor t → t.element.isDiscrete = false →
      tables.lookup v.name kind.isConvOrMatMul = none) :
    v.calibrated tables settings kind = v := by
  unfold Value.calibrated
  cases hx : valueFinding? tables settings kind v 0 with
  | none => rfl
  | some x =>
    obtain ⟨t, ht, hd, ⟨hr, rfl⟩ | ⟨source, r, hr, rfl⟩⟩ := valueFinding?_eq_some_iff.1 hx
    · rfl
    · simp [h t ht hd] at hr

theorem Settings.of_typeFor? {settings : Settings} {kind : OpKind} {source : RecordSource} {r : Record}
    {type : CalibratedType} (h : settings.typeFor? kind source r = some type) :
    type.storage = settings.storageFor source ∧ type.min = (kind.range r settings.asymmetric).1 ∧
      type.max = (kind.range r settings.asymmetric).2 :=
  CalibratedType.of_ofRange? h

/-- The second precision counts, unless integers were written before. -/
theorem Value.calibrated_calibrated {kind : OpKind} {v : Value}
    (h : v.Typable tables ⟨asymmetric, p⟩ kind)
    (h' : v.Typable tables ⟨asymmetric, if p = .int8 then p else p'⟩ kind) :
    (v.calibrated tables ⟨asymmetric, p⟩ kind).calibrated tables ⟨asymmetric, p'⟩ kind =
      v.calibrated tables ⟨asymmetric, if p = .int8 then p else p'⟩ kind := by
  by_cases hfound : ∃ t, v.type = .tensor t ∧ t.element.isDiscrete = false
  · obtain ⟨t, ht, hd⟩ := hfound
    obtain ⟨source, r, type, hr, htype⟩ := h t ht hd
    obtain ⟨source', r', type', hr', htype'⟩ := h' t ht hd
    cases hr.symm.trans hr'
    rw [Value.calibrated_of_lookup ht hd hr htype, Value.calibrated_of_lookup ht hd hr htype']
    have hstorage := (Settings.of_typeFor? htype).1
    -- Whether the value is looked up again hangs on the storage that the first time has given it.
    cases hi : type.storage.isInteger with
    | true =>
      have hsame : type' = type := by
        cases source with
        | default =>
          rw [hstorage] at hi
          rw [if_pos (p.storage_isInteger_iff.1 hi), htype] at htype'
          exact (Option.some.inj htype').symm
        | int4 => exact Option.some.inj (htype'.symm.trans htype)
      rw [hsame]
      refine Value.calibrated_of_not_lookup fun t' ht' hd' => ?_
      cases ht'
      exact absurd (hd'.symm.trans hi) Bool.false_ne_true
    | false =>
      cases source with
      | int4 =>
        rw [hstorage] at hi
        cases hi
      | default =>
        have hp : p ≠ .int8 := by
          rintro rfl
          rw [hstorage] at hi
          cases hi
        rw [if_neg hp] at htype'
        exact Value.calibrated_of_lookup (t := ⟨t.shape, .calibrated type⟩) rfl hi hr htype'
  · have hnone {settings : Settings} : v.calibrated tables settings kind = v :=
      Value.calibrated_of_not_lookup fun t ht hd => absurd ⟨t, ht, hd⟩ hfound
    rw [hnone, hnone, hnone]

/-- What a first calibration leaves to a second one has float storage. -/
theorem Value.Typable.of_calibrated {settings : Settings} {kind : OpKind} {v : Value}
    (h : v.Typable tables settings kind) {source : RecordSource} {r : Record}
    (hr : tables.lookup v.name kind.isConvOrMatMul = some (source, r)) {t : TensorType}
    (ht : (v.calibrated tables settings kind).type = .tensor t) (hd : t.element.isDiscrete = false) :
    ∃ t₀, v.type = .tensor t₀ ∧ t₀.element.isDiscrete = false ∧
      (settings.storageFor source).isInteger = false := by
  by_cases hfound : ∃ t₀, v.type = .tensor t₀ ∧ t₀.element.isDiscrete = false
  · obtain ⟨t₀, ht₀, hd₀⟩ := hfound
    obtain ⟨source', r', type, hr', htype⟩ := h t₀ ht₀ hd₀
    cases hr.symm.trans hr'
    rw [Value.calibrated_of_lookup ht₀ hd₀ hr htype] at ht
    cases ht
    exact ⟨t₀, ht₀, hd₀, (Settings.of_typeFor? htype).1 ▸ hd⟩
  · rw [Value.calibrated_of_not_lookup fun t ht hd => absurd ⟨t, ht, hd⟩ hfound] at ht
    exact absurd ⟨t, ht, hd⟩ hfound

def Operation.Typable (tables : Tables) (settings : Settings) (op : Operation) : Prop :=
  op.kind.isCalibrated = true → ∀ v ∈ op.results, v.Typable tables settings op.kind

theorem Operation.Typable.exists_of_calibrated {settings : Settings} {f : Function} {op : Operation}
    (h : op.Typable tables settings) (hk : op.kind.isCalibrated = true) {k : Nat} {v : Value}
    (hv : (op.calibrated tables settings f).results[k]? = some v) :
    ∃ v₀, op.results[k]? = some v₀ ∧ v₀.Typable tables settings op.kind ∧
      v₀.calibrated tables settings op.kind = v := by
  rw [op.calibrated_results f, if_pos hk, List.getElem?_map, Option.map_eq_some_iff] at hv
  obtain ⟨v₀, hv₀, rfl⟩ := hv
  exact ⟨v₀, hv₀, h hk v₀ (List.mem_of_getElem? hv₀), rfl⟩

/-- The second calibration looks at the form of the function only, which the first has kept. -/
theorem Operation.calibrated_calibrated {f f' : Function} (hf : f'.form = f.form) {op : Operation}
    (h : op.Typable tables ⟨asymmetric, p⟩)
    (h' : op.Typable tables ⟨asymmetric, if p = .int8 then p else p'⟩) :
    (op.calibrated tables ⟨asymmetric, p⟩ f).calibrated tables ⟨asymmetric, p'⟩ f' =
      op.calibrated tables ⟨asymmetric, if p = .int8 then p else p'⟩ f := by
  have hform : (op.calibrated tables ⟨asymmetric, p⟩ f).form = op.form := op.calibrated_form f
  have hresults : ((op.calibrated tables ⟨asymmetric, p⟩ f).calibrated tables ⟨asymmetric, p'⟩
      f').results = (op.calibrated tables ⟨asymmetric, if p = .int8 then p else p'⟩ f).results := by
    rw [Operation.calibrated_results, Operation.calibrated_results, Operation.calibrated_results,
      Operation.calibrated_kind]
    cases hk : op.kind.isCalibrated with
    | true =>
      simp only [if_true, List.map_map]
      exact List.map_congr_left fun v hv => Value.calibrated_calibrated p p' (h hk v hv) (h' hk v hv)
    | false => rfl
  -- The same attributes are set once more.
  have hattrs : ((op.calibrated tables ⟨asymmetric, p⟩ f).calibrated tables ⟨asymmetric, p'⟩
      f').attrs = (op.calibrated tables ⟨asymmetric, if p = .int8 then p else p'⟩ f).attrs := by
    rw [Operation.calibrated_attrs, Operation.calibrated_attrs, Operation.calibrated_attrs,
      attrsSet_of_form hf hform p' p, NameMap.insertAll_insertAll_self,
      attrsSet_of_form rfl rfl p (if p = .int8 then p else p')]
  have hext (a b : Operation) (h₁ : a.kind = b.kind) (h₂ : a.operands = b.operands)
      (h₃ : a.results = b.results) (h₄ : a.attrs = b.attrs) : a = b := by
    cases a
    cases b
    congr
  have hkind : ((op.calibrated tables ⟨asymmetric, p⟩ f).calibrated tables ⟨asymmetric, p'⟩ f').kind =
      (op.calibrated tables ⟨asymmetric, if p = .int8 then p else p'⟩ f).kind := by
    rw [Operation.calibrated_kind, Operation.calibrated_kind, Operation.calibrated_kind]
  have hoperands : ((op.calibrated tables ⟨asymmetric, p⟩ f).calibrated tables ⟨asymmetric, p'⟩
      f').operands = (op.calibrated tables ⟨asymmetric, if p = .int8 then p else p'⟩ f).operands := by
    rw [Operation.calibrated_operands, Operation.calibrated_operands, Operation.calibrated_operands]
  exact hext _ _ hkind hoperands hresults hattrs

theorem Function.calibrated_calibrated {f : Function}
    (h : ∀ op ∈ f.ops, op.Typable tables ⟨asymmetric, p⟩)
    (h' : ∀ op ∈ f.ops, op.Typable tables ⟨asymmetric, if p = .int8 then p else p'⟩) :
    ((f.calibrated tables ⟨asymmetric, p⟩).refreshed.calibrated tables ⟨asymmetric, p'⟩).refreshed =
      (f.calibrated tables ⟨asymmetric, if p = .int8 then p else p'⟩).refreshed := by
  have hops : ((f.calibrated tables ⟨asymmetric, p⟩).refreshed.calibrated tables
      ⟨asymmetric, p'⟩).ops = (f.calibrated tables ⟨asymmetric, if p = .int8 then p else p'⟩).ops := by
    change (f.ops.map _).map _ = f.ops.map _
    rw [List.map_map]
    have hform : (f.calibrated tables ⟨asymmetric, p⟩).refreshed.form = f.form := f.calibrated_form
    exact List.map_congr_left fun op hop =>
      Operation.calibrated_calibrated p p' hform (h op hop) (h' op hop)
  -- Output types are read off the operations, so none are left of those that were there before.
  have hrefreshed (g g' : Function) (hname : g.name = g'.name) (hops : g.ops = g'.ops)
      (houtputs : g.outputs = g'.outputs) : g.refreshed = g'.refreshed := by
    cases g
    cases g'
    cases hname
    cases hops
    cases houtputs
    rfl
  exact hrefreshed _ _ rfl hops rfl

/-- What stops a second calibration stops the one at the second precision alone. -/
theorem Offends.of_calibrated {f f' : Function} (hf : f'.form = f.form) {op : Operation}
    (htypable : op.Typable tables ⟨asymmetric, p⟩) {k : Nat} {stop : Stop CalibrationError}
    (h : Offends tables ⟨asymmetric, p'⟩ f' (op.calibrated tables ⟨asymmetric, p⟩ f) k stop) :
    Offends tables ⟨asymmetric, if p = .int8 then p else p'⟩ f op k stop := by
  have hkind : (op.calibrated tables ⟨asymmetric, p⟩ f).kind = op.kind := op.calibrated_kind f
  have hform : (op.calibrated tables ⟨asymmetric, p⟩ f).form = op.form := op.calibrated_form f
  have hlength : (op.calibrated tables ⟨asymmetric, p⟩ f).results.length = op.results.length := by
    simpa using congrArg List.length (Operation.results_of_form hform)
  cases h with
  | @missingRecord k v t hk hv ht hd hn h4 =>
    rw [hkind] at hk h4 ⊢
    have hr : tables.lookup v.name op.kind.isConvOrMatMul = none :=
      Tables.lookup_eq_none_iff.2 ⟨hn, fun hc => h4 (OpKind.isConvOrMatMul_iff.1 hc)⟩
    obtain ⟨v₀, hv₀, -, rfl⟩ := htypable.exists_of_calibrated hk hv
    -- Without a record the first calibration has left the value alone.
    have hsame : v₀.calibrated tables ⟨asymmetric, p⟩ op.kind = v₀ := by
      refine Value.calibrated_of_not_lookup fun _ _ _ => ?_
      rw [← v₀.calibrated_name op.kind]
      exact hr
    rw [hsame] at ht hn h4 ⊢
    exact .missingRecord hk hv₀ ht hd hn h4
  | @channelCount w dim dims element user consumer vector hk hw hu hc hv ht hdim hne =>
    rw [hkind] at hk
    rw [op.calibrated_results f, if_neg (by simp [hk, OpKind.isCalibrated])] at hw
    have hconsumer : f.consumer? w.name = some consumer := by
      rw [← Function.consumer?_of_form hf]
      exact Function.consumer?_eq_some_iff.2 ⟨user, hu, hc⟩
    obtain ⟨user', hu', hc'⟩ := Function.consumer?_eq_some_iff.1 hconsumer
    exact .channelCount hk hw hu' hc' hv ht hdim hne
  | @default k v t r hk hv ht hd hr h8 hp =>
    rw [hkind] at hk hp
    obtain ⟨v₀, hv₀, htyp, rfl⟩ := htypable.exists_of_calibrated hk hv
    rw [v₀.calibrated_name op.kind] at hr
    obtain ⟨t₀, ht₀, hd₀, hfloat⟩ := htyp.of_calibrated (Tables.lookup_of_default hr) ht hd
    have hp8 : p ≠ .int8 := by
      rintro rfl
      cases hfloat
    rw [if_neg hp8]
    exact .default hk hv₀ ht₀ hd₀ hr h8 hp
  | @int4 k v t r hk hv ht hd hn hr hp =>
    rw [hkind] at hk
    obtain ⟨v₀, hv₀, htyp, rfl⟩ :=
      htypable.exists_of_calibrated (OpKind.isCalibrated_of_heavy hk) hv
    rw [v₀.calibrated_name op.kind] at hn hr
    have hlookup := Tables.lookup_of_int4 (OpKind.isConvOrMatMul_iff.2 hk) hn hr
    obtain ⟨t₀, ht₀, hd₀, hfloat⟩ := htyp.of_calibrated hlookup ht hd
    cases hfloat
  | output hc hp =>
    rw [hlength]
    rw [hkind] at hp
    exact .output (hc.of_form hf hform) hp
  | input hc hp =>
    rw [hlength]
    exact .input (hc.of_form hf hform) hp

/-- What the second precision adds is a range of which it wants a map, and it is wanted of what the first
calibration has left as well. -/
theorem Offends.calibrated {f f' : Function} {op : Operation} {k : Nat} {stop : Stop CalibrationError}
    (hnone : ¬Offends tables ⟨asymmetric, p⟩ f op k stop)
    (h : Offends tables ⟨asymmetric, p'⟩ f op k stop) :
    p ≠ .int8 ∧ p' = .int8 ∧ stop = .overflow ∧
      Offends tables ⟨asymmetric, p'⟩ f' (op.calibrated tables ⟨asymmetric, p⟩ f) k stop := by
  cases h with
  | missingRecord hk hv ht hd hn h4 => exact absurd (.missingRecord hk hv ht hd hn h4) hnone
  | channelCount hk hw hu hc hv ht hdim hne =>
    exact absurd (.channelCount hk hw hu hc hv ht hdim hne) hnone
  | int4 hk hv ht hd hn hr hp => exact absurd (.int4 hk hv ht hd hn hr hp) hnone
  | output hc hp => exact absurd (.output hc hp) hnone
  | input hc hp => exact absurd (.input hc hp) hnone
  | @default k v t r hk hv ht hd hr h8 hp =>
    have hp8 : p ≠ .int8 := fun h8' => hnone (.default hk hv ht hd hr h8' hp)
    refine ⟨hp8, h8, rfl, ?_⟩
    cases htype : Settings.typeFor? ⟨asymmetric, p⟩ op.kind .default r with
    | none => exact absurd (Settings.typeFor?_default_eq_none_iff.1 htype).1 hp8
    | some type =>
      have hvalue := Value.calibrated_of_lookup ht hd (Tables.lookup_of_default hr) htype
      have hresult : (op.calibrated tables ⟨asymmetric, p⟩ f).results[k]? =
          some ⟨v.name, .tensor ⟨t.shape, .calibrated type⟩⟩ := by
        rw [op.calibrated_results f, if_pos hk, List.getElem?_map, hv, Option.map_some, hvalue]
      have hfloat : type.storage.isInteger = false := by
        rw [(Settings.of_typeFor? htype).1, ← Bool.not_eq_true]
        exact fun hi => hp8 (p.storage_isInteger_iff.1 hi)
      exact .default ((op.calibrated_kind f).symm ▸ hk) hresult rfl hfloat hr h8
        ((op.calibrated_kind f).symm ▸ hp)

namespace Module

/-- Everything that a calibration makes of a module besides the state. -/
def calibratedFunctions (tables : Tables) (settings : Settings) (fs : List Function) :
    List Function :=
  fs.map fun f => (f.calibrated tables settings).refreshed

theorem typable_of_findSome? {settings : Settings} {m : Module}
    (hm : (moduleFindings tables settings m).findSome? Located.stop? = none) :
    ∀ f ∈ m.functions, ∀ op ∈ f.ops, op.Typable tables settings :=
  fun _ hf _ hop hk _ hv => Value.typable_of_findSome? hm hf hop hk hv

section
variable {m m' : Module} (hm : m'.functions = calibratedFunctions tables ⟨asymmetric, p⟩ m.functions)
include hm

theorem Offender.of_calibrated
    (hnone : (moduleFindings tables ⟨asymmetric, p⟩ m).findSome? Located.stop? = none) {q : Place}
    {stop : Stop CalibrationError} (h : m'.Offender tables ⟨asymmetric, p'⟩ q stop) :
    m.Offender tables ⟨asymmetric, if p = .int8 then p else p'⟩ q stop := by
  obtain ⟨f', hf', op', hop', ho⟩ := h
  rw [hm, calibratedFunctions, List.getElem?_map, Option.map_eq_some_iff] at hf'
  obtain ⟨f, hf, rfl⟩ := hf'
  have hops : (f.calibrated tables ⟨asymmetric, p⟩).refreshed.ops =
      f.ops.map fun op => op.calibrated tables ⟨asymmetric, p⟩ f := rfl
  rw [hops, List.getElem?_map, Option.map_eq_some_iff] at hop'
  obtain ⟨op, hop, rfl⟩ := hop'
  have hform : (f.calibrated tables ⟨asymmetric, p⟩).refreshed.form = f.form := f.calibrated_form
  have htypable := typable_of_findSome? hnone f (List.mem_of_getElem? hf) op (List.mem_of_getElem? hop)
  exact ⟨f, hf, op, hop, Offends.of_calibrated p p' hform htypable ho⟩

theorem Offender.calibrated
    (hnone : ∀ q stop, ¬m.Offender tables ⟨asymmetric, p⟩ q stop) {q : Place}
    {stop : Stop CalibrationError} (h : m.Offender tables ⟨asymmetric, p'⟩ q stop) :
    p ≠ .int8 ∧ p' = .int8 ∧ stop = .overflow ∧ m'.Offender tables ⟨asymmetric, p'⟩ q stop := by
  obtain ⟨f, hf, op, hop, ho⟩ := h
  have hafter : p ≠ .int8 ∧ p' = .int8 ∧ stop = .overflow ∧ Offends tables ⟨asymmetric, p'⟩
      (f.calibrated tables ⟨asymmetric, p⟩).refreshed (op.calibrated tables ⟨asymmetric, p⟩ f) q.2.2 stop :=
    ho.calibrated p p' fun ho => hnone q stop ⟨f, hf, op, hop, ho⟩
  obtain ⟨hp, hp', hstop, ho'⟩ := hafter
  have hop' : (f.calibrated tables ⟨asymmetric, p⟩).refreshed.ops[q.2.1]? =
      some (op.calibrated tables ⟨asymmetric, p⟩ f) := by
    change (f.ops.map _)[q.2.1]? = _
    rw [List.getElem?_map, hop, Option.map_some]
  refine ⟨hp, hp', hstop, _, ?_, _, hop', ho'⟩
  rw [hm, calibratedFunctions, List.getElem?_map, hf, Option.map_some]

end

theorem validate_of_calibrated {settings : Settings} {m m' : Module}
    (hm : m'.functions = calibratedFunctions tables settings m.functions) :
    m'.validate = m.validate := by
  apply validate_of_form
  rw [hm, calibratedFunctions, List.forall₂_map_left_iff]
  exact List.forall₂_same.2 fun f _ => ⟨f.calibrated_form, rfl⟩

theorem calibratedFunctions_calibratedFunctions {fs : List Function}
    (h : ∀ f ∈ fs, ∀ op ∈ f.ops, op.Typable tables ⟨asymmetric, p⟩)
    (h' : ∀ f ∈ fs, ∀ op ∈ f.ops, op.Typable tables ⟨asymmetric, if p = .int8 then p else p'⟩) :
    calibratedFunctions tables ⟨asymmetric, p'⟩ (calibratedFunctions tables ⟨asymmetric, p⟩ fs) =
      calibratedFunctions tables ⟨asymmetric, if p = .int8 then p else p'⟩ fs := by
  unfold calibratedFunctions
  rw [List.map_map]
  exact List.map_congr_left fun f hf => Function.calibrated_calibrated p p' (h f hf) (h' f hf)

/-- A calibration succeeds for a float graph that is well formed and has no offender. -/
theorem annotate_eq_ok_iff {settings : Settings} {m m' : Module} :
    (∃ s, m.annotate tables settings = (m', .ok s)) ↔
      m.state = .topF32 ∧ m.validate = .ok () ∧ (∀ q stop, ¬m.Offender tables settings q stop) ∧
        m' = ⟨m.name, .topCalibrated, calibratedFunctions tables settings m.functions⟩ := by
  -- The module is refreshed as a whole, since no output loses its value.
  have hdone (hv : m.validate = .ok ()) :
      ({ (m.calibrated tables settings).refresh.1 with state := .topCalibrated } : Module) =
        ⟨m.name, .topCalibrated, calibratedFunctions tables settings m.functions⟩ := by
    have houtputs : ∀ f ∈ (m.calibrated tables settings).functions, f.OutputsDefined := by
      have h := Plan.apply_outputsDefined (Plan.ofFindings (moduleFindings tables settings m))
        (outputsDefined_of_validate hv)
      rw [Plan.apply_ofFindings] at h
      exact h
    rw [Module.refresh, refreshFunctions_eq_map houtputs]
    simp only [Module.calibrated, List.map_map]
    rfl
  have hend := annotate_ending tables settings m
  generalize m.annotate tables settings = r at hend
  cases hend with
  | wrongState hs => simp [hs]
  | malformed hs hv => simp [hv]
  | @stopped stop hs hv hf =>
    have hoffender : ¬∀ q stop, ¬m.Offender tables settings q stop := by
      intro hnone
      rw [findSome?_moduleFindings_eq_none_iff.2 hnone] at hf
      cases hf
    constructor
    · rintro ⟨_, h⟩
      cases h
    · rintro ⟨-, -, h, -⟩
      exact absurd h hoffender
  | done hs hv hf =>
    have hnone := findSome?_moduleFindings_eq_none_iff.1 hf
    rw [hdone hv]
    constructor
    · rintro ⟨s, h⟩
      exact ⟨hs, hv, hnone, (congrArg Prod.fst h).symm⟩
    · rintro ⟨-, -, -, rfl⟩
      exact ⟨_, rfl⟩

/-- A calibration is broken off where there are no other offenders. -/
theorem annotate_eq_overflow {settings : Settings} {m : Module} (hs : m.state = .topF32)
    (hv : m.validate = .ok ()) {q : Place} {stop : Stop CalibrationError}
    (h : m.Offender tables settings q stop)
    (hall : ∀ q stop, m.Offender tables settings q stop → stop = .overflow) :
    m.annotate tables settings = (m, .error .overflow) := by
  cases hf : (moduleFindings tables settings m).findSome? Located.stop? with
  | none => exact absurd h (findSome?_moduleFindings_eq_none_iff.1 hf q stop)
  | some stop' =>
    obtain ⟨q', h', -⟩ := findSome?_moduleFindings_eq_some_iff.1 hf
    rw [annotate_of_stop hs hv hf, hall q' stop' h']

/-- A calibrated module whose state is set back is calibrated as its original would have been, or
stays as it is if integers have been written. It is broken off where its original would have been. -/
theorem annotate_again {p : Precision} {m m₁ : Module} {s : Summary}
    (h : m.annotate tables ⟨asymmetric, p⟩ = (m₁, .ok s)) (p' : Precision) :
    (∃ m₂ s₂, ({ m₁ with state := .topF32 } : Module).annotate tables ⟨asymmetric, p'⟩ =
        (m₂, .ok s₂) ∧
      ∃ s', m.annotate tables ⟨asymmetric, if p = .int8 then p else p'⟩ = (m₂, .ok s')) ∨
    (({ m₁ with state := .topF32 } : Module).annotate tables ⟨asymmetric, p'⟩).2 = .error .overflow ∧
      (m.annotate tables ⟨asymmetric, p'⟩).2 = .error .overflow ∧
      asymmetric = true ∧ p ≠ .int8 ∧ p' = .int8 := by
  obtain ⟨hs, hv, hnone, rfl⟩ := annotate_eq_ok_iff.1 ⟨s, h⟩
  have hclear := findSome?_moduleFindings_eq_none_iff.2 hnone
  have hv' : Module.validate ⟨m.name, .topF32, calibratedFunctions tables ⟨asymmetric, p⟩ m.functions⟩ =
    .ok () := (validate_of_calibrated rfl).trans hv
  by_cases halone : ∀ q stop, ¬m.Offender tables ⟨asymmetric, if p = .int8 then p else p'⟩ q stop
  · left
    have hcalibrated := calibratedFunctions_calibratedFunctions p p' (typable_of_findSome? hclear)
      (typable_of_findSome? (findSome?_moduleFindings_eq_none_iff.2 halone))
    have hsecond : ∃ s₂, (⟨m.name, .topF32, calibratedFunctions tables ⟨asymmetric, p⟩ m.functions⟩ :
        Module).annotate tables ⟨asymmetric, p'⟩ = (⟨m.name, .topCalibrated,
          calibratedFunctions tables ⟨asymmetric, if p = .int8 then p else p'⟩ m.functions⟩, .ok s₂) :=
      annotate_eq_ok_iff.2 ⟨rfl, hv',
        fun q stop hq => halone q stop (hq.of_calibrated p p' rfl hclear), by rw [hcalibrated]⟩
    obtain ⟨s₂, hsecond⟩ := hsecond
    exact ⟨_, s₂, hsecond, annotate_eq_ok_iff.2 ⟨hs, hv, halone, rfl⟩⟩
  · right
    obtain ⟨q, halone⟩ := Classical.not_forall.1 halone
    obtain ⟨stop, hoffender⟩ := Classical.not_forall_not.1 halone
    have hp : p ≠ .int8 := by
      rintro rfl
      exact hnone q stop hoffender
    rw [if_neg hp] at hoffender
    have hafter (q : Place) (stop : Stop CalibrationError) (h : m.Offender tables ⟨asymmetric, p'⟩ q stop) :
        p ≠ .int8 ∧ p' = .int8 ∧ stop = .overflow ∧
          Module.Offender tables ⟨asymmetric, p'⟩
            ⟨m.name, .topF32, calibratedFunctions tables ⟨asymmetric, p⟩ m.functions⟩ q stop :=
      h.calibrated p p' rfl hnone
    obtain ⟨-, hp', rfl, hoffender'⟩ := hafter q stop hoffender
    have hdirect := annotate_eq_overflow hs hv hoffender fun q stop h => (hafter q stop h).2.2.1
    have hagain := annotate_eq_overflow rfl hv' hoffender' fun q stop h => by
      have halone := h.of_calibrated p p' rfl hclear
      rw [if_neg hp] at halone
      exact (hafter q stop halone).2.2.1
    obtain ⟨f, -, op, -, ho⟩ := hoffender
    exact ⟨congrArg Prod.snd hagain, congrArg Prod.snd hdirect, ho.asymmetric_of_overflow, hp, hp'⟩

theorem importTable_eq_ok_iff {settings : Settings} {path : String}
    {source : Except FileFault ByteArray} {m m' : Module} {r : ImportReport} :
    m.importTable settings path source = (m', .ok r) ↔
      ∃ parsed, Table.parseFile path source = .ok parsed ∧ parsed.status = r.status ∧
        m.annotate parsed.tables settings = (m', .ok r.summary) := by
  have hstate {tables : Tables} {s : Summary} (h : m.annotate tables settings = (m', .ok s)) :
      m.state = .topF32 := (annotate_eq_ok_iff.1 ⟨s, h⟩).1
  unfold importTable
  constructor
  · intro h
    cases hs : m.checkState with
    | error e => simp [hs] at h
    | ok u =>
      cases hp : Table.parseFile path source with
      | error e => simp [hs, hp] at h
      | ok parsed =>
        simp only [hs, hp] at h
        refine ⟨parsed, rfl, ?_⟩
        cases ha : m.annotate parsed.tables settings with
        | mk m₁ result =>
          cases result with
          | error e => simp [ha] at h
          | ok s =>
            simp only [ha] at h
            cases h
            exact ⟨rfl, rfl⟩
  · rintro ⟨parsed, hp, hr, h⟩
    have hs : m.checkState = .ok () := if_pos (hstate h)
    simp only [hs, hp, h, hr]

/-- Calibrating again with the same table and mode succeeds at any precision, unless it is broken off where the
second precision alone is broken off as well, for integers after floats. After integers nothing changes any more;
after floats the module is the one that its original gives at the second precision. So the same import once more
leaves the module as the first has left it. -/
theorem recalibrate (m m₁ : Module) (asymmetric : Bool) (p : Precision) :
    (∀ tables s, m.annotate tables ⟨asymmetric, p⟩ = (m₁, .ok s) → ∀ p',
      (∃ m₂ s₂,
        ({ m₁ with state := .topF32 } : Module).annotate tables ⟨asymmetric, p'⟩ = (m₂, .ok s₂) ∧
        (p = .int8 → m₂ = m₁) ∧
        (p = .bf16 ∨ p = .f32 → ∃ s', m.annotate tables ⟨asymmetric, p'⟩ = (m₂, .ok s')) ∧
        (p' = p → m₂ = m₁)) ∨
      (({ m₁ with state := .topF32 } : Module).annotate tables ⟨asymmetric, p'⟩).2 = .error .overflow ∧
        (m.annotate tables ⟨asymmetric, p'⟩).2 = .error .overflow ∧
        asymmetric = true ∧ (p = .bf16 ∨ p = .f32) ∧ p' = .int8) ∧
    (∀ path source r, m.importTable ⟨asymmetric, p⟩ path source = (m₁, .ok r) → ∃ r',
      ({ m₁ with state := .topF32 } : Module).importTable ⟨asymmetric, p⟩ path source =
        (m₁, .ok r')) := by
  have hsame {tables : Tables} {s : Summary} {q : Precision} {m₂ : Module} (hq : q = p)
      (h : m.annotate tables ⟨asymmetric, p⟩ = (m₁, .ok s))
      (h' : ∃ s', m.annotate tables ⟨asymmetric, q⟩ = (m₂, .ok s')) : m₂ = m₁ := by
    obtain ⟨s', h'⟩ := h'
    rw [hq, h] at h'
    exact (congrArg Prod.fst h').symm
  have hfloat : p ≠ .int8 ↔ p = .bf16 ∨ p = .f32 := by cases p <;> simp
  constructor
  · intro tables s h p'
    rcases annotate_again h p' with ⟨m₂, s₂, hagain, hm₂⟩ | ⟨hagain, halone, ha, hp, hp'⟩
    · refine .inl ⟨m₂, s₂, hagain, fun hp => hsame (if_pos hp) h hm₂, fun hp => ?_, fun hp => ?_⟩
      · rw [if_neg (hfloat.2 hp)] at hm₂
        exact hm₂
      · exact hsame (by rw [hp, ite_self]) h hm₂
    · exact .inr ⟨hagain, halone, ha, hfloat.1 hp, hp'⟩
  · intro path source r h
    obtain ⟨parsed, hparsed, hstatus, h⟩ := importTable_eq_ok_iff.1 h
    rcases annotate_again h p with ⟨m₂, s₂, hagain, hm₂⟩ | ⟨-, -, -, hp, hp'⟩
    · obtain rfl := hsame (ite_self p) h hm₂
      exact ⟨⟨s₂, r.status⟩, importTable_eq_ok_iff.2 ⟨parsed, hparsed, hstatus, hagain⟩⟩
    · exact absurd hp' hp

/-- At first the input is kept as a float, so that integers can be had of it afterwards; the four bits of
the product are final. A table of one record and one four-bit record does the same from a file. -/
theorem recalibrate_product :
    (∃ m₁ s, product.annotate (productTables [0.5, 0.25, 0.125]) ⟨true, .bf16⟩ = (m₁, .ok s) ∧
      ∃ m₂ s₂, ({ m₁ with state := .topF32 } : Module).annotate
          (productTables [0.5, 0.25, 0.125]) ⟨true, .int8⟩ = (m₂, .ok s₂) ∧
        ∃ s', product.annotate (productTables [0.5, 0.25, 0.125]) ⟨true, .int8⟩ = (m₂, .ok s')) ∧
    (∃ m₁ r, product.importTable ⟨true, .int8⟩ "t" (.ok "x 1 -1 1\n#int4_th\ny 2 0 2".toUTF8) =
        (m₁, .ok r) ∧
      ∃ r', ({ m₁ with state := .topF32 } : Module).importTable ⟨true, .int8⟩ "t"
          (.ok "x 1 -1 1\n#int4_th\ny 2 0 2".toUTF8) = (m₁, .ok r')) := by
  have hfirst : (product.annotate (productTables [0.5, 0.25, 0.125]) ⟨true, .bf16⟩).2 =
    .ok ⟨2, 1, 0, 0⟩ := by decide +kernel
  have hdirect : (product.annotate (productTables [0.5, 0.25, 0.125]) ⟨true, .int8⟩).2 =
    .ok ⟨2, 1, 0, 0⟩ := by decide +kernel
  constructor
  · rcases (recalibrate product _ true .bf16).1 _ _ (run_eq_of_snd hfirst) .int8 with
      ⟨m₂, s₂, hagain, -, halone, -⟩ | ⟨-, halone, -⟩
    · exact ⟨_, _, run_eq_of_snd hfirst, m₂, s₂, hagain, halone (.inl rfl)⟩
    · rw [halone] at hdirect
      cases hdirect
  · have hok : (product.importTable ⟨true, .int8⟩ "t"
        (.ok "x 1 -1 1\n#int4_th\ny 2 0 2".toUTF8)).2 = .ok ⟨⟨2, 0, 0, 0⟩, .complete⟩ := by
      decide +kernel
    have himport := run_eq_of_snd hok
    exact ⟨_, _, himport, (recalibrate product _ true .int8).2 _ _ _ himport⟩

/-- As a float the input is calibrated, and then no map is found for its range. -/
theorem recalibrate_farProduct : ∃ m₁ s,
    product.annotate farProductTables ⟨true, .bf16⟩ = (m₁, .ok s) ∧
    (({ m₁ with state := .topF32 } : Module).annotate farProductTables ⟨true, .int8⟩).2 =
      .error .overflow := by
  have hfirst : (product.annotate farProductTables ⟨true, .bf16⟩).2 = .ok ⟨2, 1, 0, 0⟩ := by
    decide +kernel
  exact ⟨_, _, run_eq_of_snd hfirst, by decide +kernel⟩

end Module

end Calibration
