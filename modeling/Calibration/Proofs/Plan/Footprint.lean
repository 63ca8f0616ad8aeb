import Calibration.Proofs.Plan.Boundaries
import Calibration.Proofs.Plan.TwoRuns

/-! # The entries of a table that are consulted

A calibration asks a table only for names that it finds in the module, and for each in one store. Tables that
agree on these entries cannot be told apart by it. Four-bit records are asked for in two places, to type a
result without a default record and to draw the boundary at a first operand; whatever is known of the second
kind alone shows in the attributes of that boundary and nowhere else.
-/
namespace Calibration

/-- The tables agree on the entries that are asked for apart from boundaries at operands: the default records
of results, the four-bit records that stand in for missing ones, and the scales of weights. -/
structure Module.AgreeOnValues (m : Module) (tables tables' : Tables) : Prop where
  default {f : Function} {op : Operation} {v : Value} (hf : f ∈ m.functions) (hop : op ∈ f.ops)
    (hk : op.kind.isCalibrated = true) (hv : v ∈ op.results) :
    tables.default.get? v.name = tables'.default.get? v.name
  int4 {f : Function} {op : Operation} {v : Value} (hf : f ∈ m.functions) (hop : op ∈ f.ops)
    (hk : op.kind = .conv ∨ op.kind = .matMul) (hv : v ∈ op.results)
    (hn : tables.default.get? v.name = none) :
    tables.int4.get? v.name = tables'.int4.get? v.name
  scales {f : Function} {op : Operation} {w : Value} {user : Operation} {consumer : String}
    (hf : f ∈ m.functions) (hop : op ∈ f.ops) (hk : op.kind = .weight)
    (hw : op.results.head? = some w) (hu : f.FirstUser w.name user)
    (hc : user.name? = some consumer) :
    (tables.channelScales.get? (consumer ++ "_weight")).map ChannelScales.scales =
      (tables'.channelScales.get? (consumer ++ "_weight")).map ChannelScales.scales

structure Module.AgreeOn (m : Module) (tables tables' : Tables) : Prop
    extends m.AgreeOnValues tables tables' where
  operand {f : Function} {op : Operation} {operand : String} {producer : Operation}
    (hf : f ∈ m.functions) (hop : op ∈ f.ops) (hk : op.kind = .conv ∨ op.kind = .matMul)
    (ho : op.operands.head? = some operand) (hp : f.FirstProducer operand producer)
    (hpi : producer.kind ≠ .input) (hpk : producer.kind ≠ .conv ∧ producer.kind ≠ .matMul) :
    tables.int4.get? operand = tables'.int4.get? operand

section Differences
variable (tables tables' : Tables)

/-- Operations that differ at most in the attributes of a boundary at their first operand, where the tables have
different four-bit records for it. -/
structure Operation.SameButInput (op op' : Operation) : Prop where
  kind : op.kind = op'.kind
  operands : op.operands = op'.operands
  results : op.results = op'.results
  attrs (key : String) : op.attrs.get? key = op'.attrs.get? key ∨
    (key = inputScaleKey ∨ key = inputZeroKey) ∧ (op.kind = .conv ∨ op.kind = .matMul) ∧
      ∃ operand, op.operands.head? = some operand ∧
        tables.int4.get? operand ≠ tables'.int4.get? operand

structure Module.SameButInput (m m' : Module) : Prop
    extends m.Related (Operation.SameButInput tables tables') m' where
  outputTypes : m.functions.map Function.outputTypes = m'.functions.map Function.outputTypes

/-- All ranges of boundaries at operands have maps. -/
def Module.Enterable (tables : Tables) (settings : Settings) (m : Module) : Prop :=
  ∀ f ∈ m.functions, ∀ op ∈ f.ops, ∀ kind r, InputCrossing tables f op kind r →
    kind.affine? r settings.asymmetric 4 ≠ none

end Differences

def Finding.anonymous : Finding → Finding
  | .weightScales name vector => .weightScales name ⟨"", vector.scales⟩
  | x => x

theorem Finding.viewed_anonymous {γ : Type} (g : Edit → γ) (i j : Nat) (x : Finding) :
    x.anonymous.viewed g i j = x.viewed g i j := by
  cases x <;> rfl

theorem Finding.attrs_anonymous (x : Finding) : x.anonymous.attrs = x.attrs := by
  cases x <;> rfl

variable {tables tables' : Tables} {settings : Settings} {f : Function} {op : Operation}

theorem valueFinding?_congr {kind : OpKind} {v : Value}
    (h : tables.lookup v.name kind.isConvOrMatMul = tables'.lookup v.name kind.isConvOrMatMul) (k : Nat) :
    valueFinding? tables settings kind v k = valueFinding? tables' settings kind v k := by
  unfold valueFinding?
  rw [h]

theorem outputBoundary?_congr {name : String}
    (h : tables.default.get? name = tables'.default.get? name) :
    outputBoundary? tables settings f op name = outputBoundary? tables' settings f op name := by
  unfold outputBoundary?
  rw [h]

theorem inputBoundary?_congr (h : ∀ operand producer, op.operands.head? = some operand →
      f.FirstProducer operand producer → producer.kind ≠ .input →
      producer.kind ≠ .conv ∧ producer.kind ≠ .matMul →
      tables.int4.get? operand = tables'.int4.get? operand) (name : String) :
    inputBoundary? tables settings f op name = inputBoundary? tables' settings f op name := by
  rw [inputBoundary?_eq, inputBoundary?_eq]
  cases hentry : f.entry? op with
  | none => rfl
  | some entry =>
    obtain ⟨ho, producer, hp, hkind, hpi, hpk⟩ := Function.entry?_eq_some_iff.1 hentry
    rw [← hkind] at hpi hpk
    rw [Option.bind_some, Option.bind_some, h entry.1 producer ho hp hpi hpk]

theorem weightFindings_congr (h : ∀ w user consumer, op.results.head? = some w →
      f.FirstUser w.name user → user.name? = some consumer →
      (tables.channelScales.get? (consumer ++ "_weight")).map ChannelScales.scales =
        (tables'.channelScales.get? (consumer ++ "_weight")).map ChannelScales.scales) :
    (weightFindings tables f op).map Finding.anonymous =
      (weightFindings tables' f op).map Finding.anonymous := by
  unfold weightFindings
  cases hn : op.name? with
  | none => rfl
  | some name =>
    obtain ⟨w, hw, rfl⟩ := Option.map_eq_some_iff.1 hn
    simp only [← Function.consumer?.eq_1]
    cases hc : f.consumer? w.name with
    | none => rfl
    | some consumer =>
      obtain ⟨user, hu, hname⟩ := Function.consumer?_eq_some_iff.1 hc
      have hscales : (tables.weightScales consumer).map ChannelScales.scales =
          (tables'.weightScales consumer).map ChannelScales.scales := h w user consumer hw hu hname
      simp only [List.map_append]
      congr 1
      cases hv : tables.weightScales consumer with
      | none =>
        rw [hv, Option.map_none, eq_comm, Option.map_eq_none_iff] at hscales
        rw [hscales]
      | some vector =>
        rw [hv, Option.map_some, eq_comm, Option.map_eq_some_iff] at hscales
        obtain ⟨vector', hv', hscales⟩ := hscales
        rw [hv']
        simp only [hscales]
        cases op.channels? with
        | none => simp [Finding.anonymous, hscales]
        | some n =>
          simp only
          split <;> simp [Finding.anonymous, hscales]

namespace Module.AgreeOnValues
variable {m : Module} (h : m.AgreeOnValues tables tables') (hf : f ∈ m.functions) (hop : op ∈ f.ops)
include h hf hop

theorem lookup_eq (hk : op.kind.isCalibrated = true) {v : Value} (hv : v ∈ op.results) :
    tables.lookup v.name op.kind.isConvOrMatMul = tables'.lookup v.name op.kind.isConvOrMatMul := by
  unfold Tables.lookup
  rw [← h.default hf hop hk hv]
  cases hd : tables.default.get? v.name with
  | some r => rfl
  | none =>
    cases hc : op.kind.isConvOrMatMul with
    | false => rfl
    | true => simp only [h.int4 hf hop (OpKind.isConvOrMatMul_iff.1 hc) hv hd]

theorem valueFindings_eq (hk : op.kind.isCalibrated = true) :
    valueFindings tables settings op = valueFindings tables' settings op :=
  List.filterMap_congr fun p hp =>
    valueFinding?_congr (h.lookup_eq hf hop hk (List.fst_mem_of_mem_zipIdx hp)) p.2

theorem outputBoundary?_eq (hk : op.kind.isConvOrMatMul = true) {name : String}
    (hn : op.name? = some name) :
    outputBoundary? tables settings f op name = outputBoundary? tables' settings f op name := by
  obtain ⟨v, hv, rfl⟩ := Option.map_eq_some_iff.1 hn
  exact outputBoundary?_congr (h.default hf hop (OpKind.isCalibrated_of_isConvOrMatMul hk)
    (List.mem_of_head? hv))

/-- What is left to agree on is the four-bit record of the first operand. -/
theorem boundaryFindings_eq (hk : op.kind.isConvOrMatMul = true)
    (hint4 : ∀ operand producer, op.operands.head? = some operand → f.FirstProducer operand producer →
      producer.kind ≠ .input → producer.kind ≠ .conv ∧ producer.kind ≠ .matMul →
      tables.int4.get? operand = tables'.int4.get? operand) :
    boundaryFindings tables settings f op = boundaryFindings tables' settings f op := by
  cases hn : op.name? with
  | none => rw [boundaryFindings_of_nameless hn, boundaryFindings_of_nameless hn]
  | some name =>
    rw [boundaryFindings_of_name? hn, boundaryFindings_of_name? hn, h.outputBoundary?_eq hf hop hk hn,
      inputBoundary?_congr hint4]

theorem weightFindings_eq (hk : op.kind = .weight) :
    (weightFindings tables f op).map Finding.anonymous =
      (weightFindings tables' f op).map Finding.anonymous :=
  weightFindings_congr fun _ _ _ hw hu hc => h.scales hf hop hk hw hu hc

theorem results_eq : (op.calibrated tables settings f).results =
    (op.calibrated tables' settings f).results := by
  rw [op.calibrated_results f, op.calibrated_results f]
  split
  · next hk =>
    refine List.map_congr_left fun v hv => ?_
    rw [Value.calibrated, valueFinding?_congr (h.lookup_eq hf hop hk hv)]
    rfl
  · rfl

theorem attrsSet_eq (hint4 : op.kind = .conv ∨ op.kind = .matMul → ∀ operand,
      op.operands.head? = some operand → tables.int4.get? operand = tables'.int4.get? operand) :
    attrsSet tables settings f op = attrsSet tables' settings f op := by
  cases hk : op.kind.isConvOrMatMul with
  | true =>
    rw [attrsSet_of_isConvOrMatMul hk, attrsSet_of_isConvOrMatMul hk,
      h.boundaryFindings_eq hf hop hk fun operand _ ho _ _ _ =>
        hint4 (OpKind.isConvOrMatMul_iff.1 hk) operand ho]
  | false =>
    by_cases hw : op.kind = .weight
    · have hfindings := congrArg (List.flatMap Finding.attrs) (h.weightFindings_eq hf hop hw)
      simp only [List.flatMap_map, Finding.attrs_anonymous] at hfindings
      rw [attrsSet_of_weight hw, attrsSet_of_weight hw, hfindings]
    · rw [attrsSet_of_other hk hw, attrsSet_of_other hk hw]

theorem get?_eq {key : String} (hkey : key ≠ inputScaleKey ∧ key ≠ inputZeroKey) :
    (op.calibrated tables settings f).attrs.get? key =
      (op.calibrated tables' settings f).attrs.get? key := by
  rw [op.calibrated_attrs f, op.calibrated_attrs f]
  cases hk : op.kind.isConvOrMatMul with
  | false =>
    have hheavy : ¬(op.kind = .conv ∨ op.kind = .matMul) := by
      simp [← OpKind.isConvOrMatMul_iff, hk]
    rw [h.attrsSet_eq hf hop fun hc => absurd hc hheavy]
  | true =>
    rw [attrsSet_of_isConvOrMatMul hk, attrsSet_of_isConvOrMatMul hk]
    cases hn : op.name? with
    | none => rw [boundaryFindings_of_nameless hn, boundaryFindings_of_nameless hn]
    | some name =>
      have hinput (t : Tables) : key ∉ ((inputBoundary? t settings f op name).toList.flatMap
          Finding.attrs).map Prod.fst := by
        intro hmem
        rcases List.mem_pair.1 ((inputBoundary?_keys f op name).subset hmem) with h | h
        · exact hkey.1 h
        · exact hkey.2 h
      rw [boundaryFindings_of_name? hn, boundaryFindings_of_name? hn, List.flatMap_append,
        List.flatMap_append, NameMap.insertAll_append, NameMap.insertAll_append,
        NameMap.get?_insertAll_of_not_mem _ (hinput tables),
        NameMap.get?_insertAll_of_not_mem _ (hinput tables'), h.outputBoundary?_eq hf hop hk hn]

end Module.AgreeOnValues

namespace Module
variable {m : Module}

theorem AgreeOn.boundaryFindings_eq (h : m.AgreeOn tables tables') (hf : f ∈ m.functions)
    (hop : op ∈ f.ops) (hk : op.kind.isConvOrMatMul = true) :
    boundaryFindings tables settings f op = boundaryFindings tables' settings f op :=
  h.toAgreeOnValues.boundaryFindings_eq hf hop hk fun _ _ ho hp hpi hpk =>
    h.operand hf hop (OpKind.isConvOrMatMul_iff.1 hk) ho hp hpi hpk

/-- Tables that agree on all that is asked for lead to the same findings. -/
theorem AgreeOn.alike (h : m.AgreeOn tables tables') : m.Alike id tables tables' settings settings := by
  intro f hf op hop i j
  rcases op.kind.isCalibrated_or_weight_or_plumbing with hk | hk | ⟨name, hk⟩
  · have hrest : (if op.kind.isConvOrMatMul then boundaryFindings tables settings f op else []) =
        if op.kind.isConvOrMatMul then boundaryFindings tables' settings f op else [] := by
      split
      · next hc => exact h.boundaryFindings_eq hf hop hc
      · rfl
    rw [opFindings_of_calibrated hk, opFindings_of_calibrated hk, h.valueFindings_eq hf hop hk, hrest]
  · have hfindings := congrArg (List.map (Finding.viewed id i j)) (h.weightFindings_eq hf hop hk)
    simp only [List.map_map, Function.comp_def, Finding.viewed_anonymous] at hfindings
    rw [opFindings_of_weight hk, opFindings_of_weight hk, hfindings]
  · rw [opFindings_of_plumbing hk, opFindings_of_plumbing hk]

theorem AgreeOn.annotate_eq (h : m.AgreeOn tables tables') :
    m.annotate tables settings = m.annotate tables' settings := by
  have halike : m.Alike id tables tables' settings settings := h.alike
  rcases annotate_of_findSome?_eq halike.findSome?_eq with
    ⟨stop, hstop, hstop'⟩ | ⟨plan, plan', m₁, m₂, hp, hp'⟩
  · rw [hstop, hstop']
  · obtain ⟨hsummary, hedits⟩ := halike.plans hp hp'
    rw [List.map_id, List.map_id] at hedits
    have hplan : plan = plan' := by
      cases plan
      cases plan'
      cases hsummary
      cases hedits
      rfl
    subst hplan
    rw [hp.run, hp'.run, hp.edited, hp'.edited]

theorem AgreeOnValues.symm (h : m.AgreeOnValues tables tables') : m.AgreeOnValues tables' tables where
  default hf hop hk hv := (h.default hf hop hk hv).symm
  int4 hf hop hk hv hn := by
    have hcalibrated := OpKind.isCalibrated_of_heavy hk
    exact (h.int4 hf hop hk hv ((h.default hf hop hcalibrated hv).trans hn)).symm
  scales hf hop hk hw hu hc := (h.scales hf hop hk hw hu hc).symm

/-- Whatever stops one of the calibrations stops the other, except for a range that enters and has no map. -/
theorem AgreeOnValues.offends (h : m.AgreeOnValues tables tables') (hf : f ∈ m.functions) (hop : op ∈ f.ops)
    {k : Nat} {stop : Stop CalibrationError} (ho : Offends tables settings f op k stop) :
    stop = .overflow ∧ ¬m.Enterable tables settings ∨ Offends tables' settings f op k stop := by
  cases ho with
  | missingRecord hk hv ht hd hn h4 =>
    have hmem := List.mem_of_getElem? hv
    exact .inr (.missingRecord hk hv ht hd ((h.default hf hop hk hmem).symm.trans hn) fun hc =>
      (h.int4 hf hop hc hmem hn).symm.trans (h4 hc))
  | @channelCount w dim dims element user consumer vector hk hw hu hc hv ht hdim hne =>
    have hscales := h.scales hf hop hk hw hu hc
    rw [hv, Option.map_some, eq_comm, Option.map_eq_some_iff] at hscales
    obtain ⟨vector', hv', hscales⟩ := hscales
    rw [← hscales] at hne ⊢
    exact .inr (.channelCount hk hw hu hc hv' ht hdim hne)
  | default hk hv ht hd hr h8 hp =>
    have hmem := List.mem_of_getElem? hv
    exact .inr (.default hk hv ht hd ((h.default hf hop hk hmem).symm.trans hr) h8 hp)
  | int4 hk hv ht hd hn hr hp =>
    have hmem := List.mem_of_getElem? hv
    have hcalibrated := OpKind.isCalibrated_of_heavy hk
    exact .inr (.int4 hk hv ht hd ((h.default hf hop hcalibrated hmem).symm.trans hn)
      ((h.int4 hf hop hk hmem hn).symm.trans hr) hp)
  | output hc hp =>
    obtain ⟨hk, hn, hr, hu, hread, huk⟩ := hc
    obtain ⟨v, hv, rfl⟩ := Option.map_eq_some_iff.1 hn
    have hcalibrated := OpKind.isCalibrated_of_heavy hk
    have hr' := (h.default hf hop hcalibrated (List.mem_of_head? hv)).symm.trans hr
    exact .inr (.output (.intro hk hn hr' hu hread huk) hp)
  | input hc hp => exact .inl ⟨rfl, fun henter => henter f hf op hop _ _ hc hp⟩

theorem AgreeOnValues.offender (h : m.AgreeOnValues tables tables') {p : Place}
    {stop : Stop CalibrationError} (ho : m.Offender tables settings p stop) :
    stop = .overflow ∧ ¬m.Enterable tables settings ∨ m.Offender tables' settings p stop := by
  obtain ⟨f, hf, op, hop, ho⟩ := ho
  rcases h.offends (List.mem_of_getElem? hf) (List.mem_of_getElem? hop) ho with hover | ho
  · exact .inl hover
  · exact .inr ⟨f, hf, op, hop, ho⟩

theorem AgreeOnValues.operation (h : m.AgreeOnValues tables tables') (hf : f ∈ m.functions)
    (hop : op ∈ f.ops) : Operation.SameButInput tables tables' (op.calibrated tables settings f)
      (op.calibrated tables' settings f) where
  kind := (op.calibrated_kind f).trans (op.calibrated_kind f).symm
  operands := (op.calibrated_operands f).trans (op.calibrated_operands f).symm
  results := h.results_eq hf hop
  attrs key := by
    rw [op.calibrated_kind f, op.calibrated_operands f]
    by_cases hkey : key ≠ inputScaleKey ∧ key ≠ inputZeroKey
    · exact .inl (h.get?_eq hf hop hkey)
    · by_cases hdiff : (op.kind = .conv ∨ op.kind = .matMul) ∧ ∃ operand,
          op.operands.head? = some operand ∧ tables.int4.get? operand ≠ tables'.int4.get? operand
      · exact .inr ⟨by simpa [Classical.or_iff_not_imp_left] using hkey, hdiff⟩
      · refine .inl ?_
        rw [op.calibrated_attrs f, op.calibrated_attrs f, h.attrsSet_eq hf hop]
        intro hk operand ho
        exact Classical.byContradiction fun hne => hdiff ⟨hk, operand, ho, hne⟩

theorem AgreeOnValues.outputTypes_eq (h : m.AgreeOnValues tables tables') (hf : f ∈ m.functions) :
    (f.calibrated tables settings).refreshed.outputTypes =
      (f.calibrated tables' settings).refreshed.outputTypes := by
  have hvalues : (f.calibrated tables settings).values = (f.calibrated tables' settings).values := by
    unfold Function.values Function.calibrated
    rw [List.flatMap_map, List.flatMap_map]
    exact List.flatMap_congr fun op hop => h.results_eq hf hop
  unfold Function.refreshed Function.value?
  rw [hvalues]
  rfl

theorem AgreeOnValues.sameButInput (h : m.AgreeOnValues tables tables') {plan plan' : Plan}
    {m₁ m₂ : Module} (hp : m.CalibratedBy tables settings plan m₁)
    (hp' : m.CalibratedBy tables' settings plan' m₂) : m₁.SameButInput tables tables' m₂ where
  toRelated := hp.related hp' fun f hf op hop => h.operation hf hop
  outputTypes := by
    rw [hp.functions_eq, hp'.functions_eq, calibratedFunctions, calibratedFunctions, List.map_map,
      List.map_map]
    exact List.map_congr_left fun f hf => h.outputTypes_eq hf

def ResultAt (m : Module) (i j k : Nat) (v : Value) : Prop :=
  ∃ f op, m.OpAt i j f op ∧ op.results[k]? = some v

theorem CalibratedBy.resultAt {plan : Plan} {m' : Module}
    (h : m.CalibratedBy tables settings plan m') {i j k : Nat} (hat : m.OpAt i j f op) {v : Value}
    (hv : op.results[k]? = some v) :
    m'.ResultAt i j k (if op.kind.isCalibrated then v.calibrated tables settings op.kind else v) := by
  refine ⟨_, _, h.opAt hat, ?_⟩
  rw [op.calibrated_results f]
  split
  · rw [List.getElem?_map, hv, Option.map_some]
  · exact hv

/-- Only the entries that are consulted matter. Tables that agree on them give one and the same result. If
they agree on all but those for boundaries at operands, the results differ in the attributes of such boundaries
only, unless a run is broken off over a range that enters there and has no map. And a value with a default
record, or of another operation than a convolution or product, is given the same type whatever the four-bit
records are. -/
theorem consulted_entries_decide (tables tables' : Tables) (settings : Settings) (m : Module) :
    (m.AgreeOn tables tables' → m.annotate tables settings = m.annotate tables' settings) ∧
    (m.AgreeOnValues tables tables' →
      (m.annotate tables settings = (m, .error .overflow) ∧ ¬m.Enterable tables settings) ∨
      (m.annotate tables' settings = (m, .error .overflow) ∧ ¬m.Enterable tables' settings) ∨
      (∃ stop, m.annotate tables settings = (m, .error stop) ∧
        m.annotate tables' settings = (m, .error stop)) ∨
      ∃ m₁ m₂ s₁ s₂, m.annotate tables settings = (m₁, .ok s₁) ∧
        m.annotate tables' settings = (m₂, .ok s₂) ∧ m₁.SameButInput tables tables' m₂) ∧
    (∀ m₁ m₂ s₁ s₂, m.annotate tables settings = (m₁, .ok s₁) →
      m.annotate tables' settings = (m₂, .ok s₂) →
      ∀ i j k f op v, m.OpAt i j f op → op.results[k]? = some v →
        tables.default.get? v.name = tables'.default.get? v.name →
        tables.default.get? v.name ≠ none ∨ op.kind ≠ .conv ∧ op.kind ≠ .matMul →
        ∃ v', m₁.ResultAt i j k v' ∧ m₂.ResultAt i j k v') := by
  refine ⟨AgreeOn.annotate_eq, fun h => ?_, ?_⟩
  · rcases annotate_of_offenders (fun _ _ => h.offender) (fun _ _ => h.symm.offender) with
      hover | hover | hstop | ⟨plan, plan', m₁, m₂, hp, hp'⟩
    · exact .inl hover
    · exact .inr (.inl hover)
    · exact .inr (.inr (.inl hstop))
    · exact .inr (.inr (.inr
        ⟨m₁, m₂, plan.summary, plan'.summary, hp.run, hp'.run, h.sameButInput hp hp'⟩))
  · intro m₁ m₂ s₁ s₂ h₁ h₂ i j k f op v hat hv hdefault hvalue
    obtain ⟨plan, hp⟩ := exists_calibratedBy h₁
    obtain ⟨plan', hp'⟩ := exists_calibratedBy h₂
    have hlookup : tables.lookup v.name op.kind.isConvOrMatMul =
        tables'.lookup v.name op.kind.isConvOrMatMul := by
      unfold Tables.lookup
      rw [← hdefault]
      cases hd : tables.default.get? v.name with
      | some r => rfl
      | none =>
        rw [OpKind.isConvOrMatMul_eq_false_iff.2 (hvalue.resolve_left fun hne => hne hd)]
        rfl
    have hsame : v.calibrated tables settings op.kind = v.calibrated tables' settings op.kind := by
      rw [Value.calibrated, valueFinding?_congr hlookup]
      rfl
    exact ⟨_, hp.resultAt hat hv, hsame ▸ hp'.resultAt hat hv⟩

def crossingUnread : Tables :=
  (crossingTables.insertDefault "q" ⟨1, -1, 1⟩).insertInt4 "c" ⟨9, -9, 9⟩

def crossingEntered : Tables := crossingTables.insertInt4 "r" ⟨2, -2, 2⟩

theorem agreeOn_crossingUnread : crossing.AgreeOn crossingTables crossingUnread where
  default := by
    intro f op v hf hop _ hv
    have hnames : ∀ f ∈ crossing.functions, ∀ op ∈ f.ops, ∀ v ∈ op.results, v.name ≠ "q" := by decide
    exact (NameMap.get?_insert_of_ne _ _ (hnames f hf op hop v hv)).symm
  int4 := by
    intro f op v _ _ _ _ hn
    have hne : v.name ≠ "c" := by
      intro hc
      rw [hc] at hn
      cases hn
    exact (NameMap.get?_insert_of_ne _ _ hne).symm
  scales := fun _ _ _ _ _ _ => rfl
  operand := by
    intro f op operand producer hf hop hk ho _ _ _
    have hoperands : ∀ f ∈ crossing.functions, ∀ op ∈ f.ops, op.kind = .conv ∨ op.kind = .matMul →
        op.operands.head? ≠ some "c" := by decide
    have hne : operand ≠ "c" := fun hc => hoperands f hf op hop hk (hc ▸ ho)
    exact (NameMap.get?_insert_of_ne _ _ hne).symm

theorem agreeOnValues_crossingEntered : crossing.AgreeOnValues crossingTables crossingEntered where
  default := fun _ _ _ _ => rfl
  int4 := by
    intro f op v hf hop hk hv _
    have hnames : ∀ f ∈ crossing.functions, ∀ op ∈ f.ops, op.kind = .conv ∨ op.kind = .matMul →
        ∀ v ∈ op.results, v.name ≠ "r" := by decide
    exact (NameMap.get?_insert_of_ne _ _ (hnames f hf op hop hk v hv)).symm
  scales := fun _ _ _ _ _ _ => rfl

theorem consulted_entries_decide_crossing :
    crossing.annotate crossingTables ⟨true, .int8⟩ = crossing.annotate crossingUnread ⟨true, .int8⟩ ∧
    ∃ m₁ m₂ s₁ s₂, crossing.annotate crossingTables ⟨true, .int8⟩ = (m₁, .ok s₁) ∧
      crossing.annotate crossingEntered ⟨true, .int8⟩ = (m₂, .ok s₂) ∧
      m₁.SameButInput crossingTables crossingEntered m₂ ∧
      ∃ v', m₁.ResultAt 0 2 0 v' ∧ m₂.ResultAt 0 2 0 v' := by
  refine ⟨(consulted_entries_decide _ _ _ _).1 agreeOn_crossingUnread, ?_⟩
  obtain ⟨-, hentered, hvalue⟩ :=
    consulted_entries_decide crossingTables crossingEntered ⟨true, .int8⟩ crossing
  have hrun := annotate_crossing_snd
  have hrun' : (crossing.annotate crossingEntered ⟨true, .int8⟩).2 = .ok ⟨6, 0, 1, 2⟩ := by
    decide +kernel
  rcases hentered agreeOnValues_crossingEntered with
    ⟨hstop, -⟩ | ⟨hstop, -⟩ | ⟨stop, hstop, -⟩ | ⟨m₁, m₂, s₁, s₂, h₁, h₂, hsame⟩
  · rw [hstop] at hrun
    cases hrun
  · rw [hstop] at hrun'
    cases hrun'
  · rw [hstop] at hrun
    cases hrun
  · exact ⟨m₁, m₂, s₁, s₂, h₁, h₂, hsame, hvalue m₁ m₂ s₁ s₂ h₁ h₂ 0 2 0 _ _ _ crossing_conv rfl rfl
      (.inl nofun)⟩

end Module

end Calibration
