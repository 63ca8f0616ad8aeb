import Calibration.Proofs.Plan.Crossings

/-! # When a finding is made

The findings for an operation are collected by three helpers that leave early in many ways. Here every
kind of finding is given with all that leads to it, so that later statements need not open the helpers.
-/
namespace Calibration
variable (tables : Tables) (settings : Settings) (f : Function) (op : Operation)

def Function.consumer? (name : String) : Option String :=
  (f.users name).head?.bind Operation.name?

/-- A finding that is made for an operation of `f`, by the reasons for which it is made. -/
inductive Made : Finding → Prop
  | typed {k : Nat} {v : Value} {t : TensorType} {source : RecordSource} {r : Record}
    {type : CalibratedType} (hk : op.kind.isCalibrated = true) (hv : op.results[k]? = some v)
    (ht : v.type = .tensor t) (hd : t.element.isDiscrete = false)
    (hr : tables.lookup v.name op.kind.isConvOrMatMul = some (source, r))
    (htype : settings.typeFor? op.kind source r = some type) :
    Made (.typed k v.name t.element type)
  | overflow {k : Nat} {v : Value} {t : TensorType} {source : RecordSource} {r : Record}
    (hk : op.kind.isCalibrated = true) (hv : op.results[k]? = some v) (ht : v.type = .tensor t)
    (hd : t.element.isDiscrete = false)
    (hr : tables.lookup v.name op.kind.isConvOrMatMul = some (source, r))
    (htype : settings.typeFor? op.kind source r = none) : Made .overflow
  | missingRecord {k : Nat} {v : Value} {t : TensorType}
    (hk : op.kind.isCalibrated = true) (hv : op.results[k]? = some v) (ht : v.type = .tensor t)
    (hd : t.element.isDiscrete = false)
    (hr : tables.lookup v.name op.kind.isConvOrMatMul = none) :
    Made (.missingRecord v.name op.kind)
  | unusedWeight {name : String} (hk : op.kind = .weight) (hn : op.name? = some name)
    (hc : f.consumer? name = none) : Made (.unusedWeight name)
  | sharedWeight {name consumer : String} (hk : op.kind = .weight) (hn : op.name? = some name)
    (hc : f.consumer? name = some consumer) (hu : 1 < (f.users name).length) :
    Made (.sharedWeight name consumer)
  | weightScales {name consumer : String} {vector : ChannelScales}
    (hk : op.kind = .weight) (hn : op.name? = some name) (hc : f.consumer? name = some consumer)
    (hv : tables.weightScales consumer = some vector)
    (hch : ∀ n, op.channels? = some n → n = vector.scales.length) :
    Made (.weightScales name vector)
  | channelCount {name consumer : String} {vector : ChannelScales} {n : Nat}
    (hk : op.kind = .weight) (hn : op.name? = some name) (hc : f.consumer? name = some consumer)
    (hv : tables.weightScales consumer = some vector) (hch : op.channels? = some n)
    (hne : n ≠ vector.scales.length) :
    Made (.channelCount (Tables.weightKey consumer) n vector.scales.length)
  | boundary {x : Finding} (hb : Boundary tables settings f op x) : Made x

variable {tables settings f op}

theorem valueFinding?_eq_some_iff {kind : OpKind} {v : Value} {k : Nat} {x : Finding} :
    valueFinding? tables settings kind v k = some x ↔
      ∃ t, v.type = .tensor t ∧ t.element.isDiscrete = false ∧
        ((tables.lookup v.name kind.isConvOrMatMul = none ∧ x = .missingRecord v.name kind) ∨
          ∃ source r, tables.lookup v.name kind.isConvOrMatMul = some (source, r) ∧
            x = (settings.typeFor? kind source r).elim .overflow (.typed k v.name t.element)) := by
  unfold valueFinding?
  cases ht : v.type with
  | none => simp
  | tensor t =>
    simp only [ValueType.tensor.injEq, exists_eq_left']
    cases hd : t.element.isDiscrete with
    | true => simp
    | false =>
      cases hr : tables.lookup v.name kind.isConvOrMatMul with
      | none =>
        have hne (source : RecordSource) (r : Record) : none ≠ some (source, r) := nofun
        simp [hne, eq_comm (a := x)]
      | some p =>
        obtain ⟨source, r⟩ := p
        simp only [Bool.false_eq_true, ↓reduceIte, Option.some.injEq, reduceCtorEq, false_and,
          false_or, true_and, Prod.mk.injEq]
        constructor
        · rintro rfl
          exact ⟨source, r, ⟨rfl, rfl⟩, rfl⟩
        · rintro ⟨_, _, ⟨rfl, rfl⟩, rfl⟩
          rfl

theorem mem_valueFindings {x : Finding} :
    x ∈ valueFindings tables settings op ↔
      ∃ k v, op.results[k]? = some v ∧ valueFinding? tables settings op.kind v k = some x := by
  simp only [valueFindings, List.mem_filterMap, Prod.exists, List.mem_zipIdx_iff_getElem?]
  exact exists_comm

theorem made_of_mem_weightFindings (hk : op.kind = .weight) {x : Finding}
    (h : x ∈ weightFindings tables f op) : Made tables settings f op x := by
  unfold weightFindings at h
  cases hn : op.name? with
  | none => simp [hn] at h
  | some name =>
    simp only [hn, ← Function.consumer?.eq_1] at h
    cases hc : f.consumer? name with
    | none =>
      rw [hc] at h
      cases List.mem_singleton.1 h
      exact .unusedWeight hk hn hc
    | some consumer =>
      rw [hc] at h
      rcases List.mem_append.1 h with h | h
      · split at h
        · next hu =>
          cases List.mem_singleton.1 h
          exact .sharedWeight hk hn hc hu
        · cases h
      · cases hv : tables.weightScales consumer with
        | none => simp [hv] at h
        | some vector =>
          simp only [hv] at h
          cases hch : op.channels? with
          | none =>
            simp only [hch] at h
            cases List.mem_singleton.1 h
            exact .weightScales hk hn hc hv (by simp [hch])
          | some n =>
            simp only [hch] at h
            split at h
            · next he =>
              cases List.mem_singleton.1 h
              exact .weightScales hk hn hc hv (by simp [hch, he])
            · next hne =>
              cases List.mem_singleton.1 h
              exact .channelCount hk hn hc hv hch hne

theorem made_of_mem_valueFindings (hk : op.kind.isCalibrated = true) {x : Finding}
    (h : x ∈ valueFindings tables settings op) : Made tables settings f op x := by
  obtain ⟨k, v, hv, h⟩ := mem_valueFindings.1 h
  obtain ⟨t, ht, hd, ⟨hr, rfl⟩ | ⟨source, r, hr, rfl⟩⟩ := valueFinding?_eq_some_iff.1 h
  · exact .missingRecord hk hv ht hd hr
  · cases htype : settings.typeFor? op.kind source r with
    | none => exact .overflow hk hv ht hd hr htype
    | some type => exact .typed hk hv ht hd hr htype

theorem opFindings_of_calibrated (hk : op.kind.isCalibrated = true) :
    opFindings tables settings f op = valueFindings tables settings op ++
      if op.kind.isConvOrMatMul then boundaryFindings tables settings f op else [] := by
  unfold opFindings
  cases h : op.kind <;> simp_all [OpKind.isCalibrated]

theorem opFindings_of_weight (hk : op.kind = .weight) :
    opFindings tables settings f op = weightFindings tables f op := by
  unfold opFindings
  rw [hk]

theorem opFindings_of_plumbing {name : String} (hk : op.kind = .plumbing name) :
    opFindings tables settings f op = [] := by
  unfold opFindings
  rw [hk]

theorem OpKind.isCalibrated_or_weight_or_plumbing (kind : OpKind) :
    kind.isCalibrated = true ∨ kind = .weight ∨ ∃ name, kind = .plumbing name := by
  cases kind <;> simp [isCalibrated]

theorem made_of_mem {x : Finding} (h : x ∈ opFindings tables settings f op) :
    Made tables settings f op x := by
  rcases op.kind.isCalibrated_or_weight_or_plumbing with hk | hk | ⟨name, hk⟩
  · rw [opFindings_of_calibrated hk] at h
    rcases List.mem_append.1 h with h | h
    · exact made_of_mem_valueFindings hk h
    · split at h
      · next hc =>
        exact .boundary ((mem_boundaryFindings (OpKind.isConvOrMatMul_iff.1 hc)).1 h)
      · cases h
  · exact made_of_mem_weightFindings hk (opFindings_of_weight hk ▸ h)
  · rw [opFindings_of_plumbing hk] at h
    cases h

theorem mem_of_made {x : Finding} (h : Made tables settings f op x) :
    x ∈ opFindings tables settings f op := by
  cases h with
  | typed hk hv ht hd hr htype | overflow hk hv ht hd hr htype =>
    rw [opFindings_of_calibrated hk]
    exact List.mem_append_left _ (mem_valueFindings.2
      ⟨_, _, hv, valueFinding?_eq_some_iff.2 ⟨_, ht, hd, .inr ⟨_, _, hr, by rw [htype]; rfl⟩⟩⟩)
  | missingRecord hk hv ht hd hr =>
    rw [opFindings_of_calibrated hk]
    exact List.mem_append_left _ (mem_valueFindings.2
      ⟨_, _, hv, valueFinding?_eq_some_iff.2 ⟨_, ht, hd, .inl ⟨hr, rfl⟩⟩⟩)
  | unusedWeight hk hn hc =>
    simp [opFindings_of_weight hk, weightFindings, hn, ← Function.consumer?.eq_1, hc]
  | sharedWeight hk hn hc hu =>
    simp [opFindings_of_weight hk, weightFindings, hn, ← Function.consumer?.eq_1, hc, hu]
  | @weightScales name consumer vector hk hn hc hv hch =>
    cases hn' : op.channels? with
    | none => simp [opFindings_of_weight hk, weightFindings, hn, ← Function.consumer?.eq_1, hc, hv, hn']
    | some n =>
      simp [opFindings_of_weight hk, weightFindings, hn, ← Function.consumer?.eq_1, hc, hv, hn',
        hch n hn']
  | channelCount hk hn hc hv hch hne =>
    simp [opFindings_of_weight hk, weightFindings, hn, ← Function.consumer?.eq_1, hc, hv, hch, hne]
  | boundary hb =>
    have hk : op.kind.isConvOrMatMul = true := OpKind.isConvOrMatMul_iff.2 hb.heavy
    rw [opFindings_of_calibrated (OpKind.isCalibrated_of_isConvOrMatMul hk), if_pos hk]
    exact List.mem_append_right _ ((mem_boundaryFindings hb.heavy).2 hb)

theorem mem_opFindings {x : Finding} :
    x ∈ opFindings tables settings f op ↔ Made tables settings f op x :=
  ⟨made_of_mem, mem_of_made⟩

structure Module.OpAt (m : Module) (i j : Nat) (f : Function) (op : Operation) : Prop where
  function : m.functions[i]? = some f
  op : f.ops[j]? = some op

theorem Module.OpAt.unique {m : Module} {i j : Nat} {f f' : Function} {op op' : Operation}
    (h : m.OpAt i j f op) (h' : m.OpAt i j f' op') : f = f' ∧ op = op' := by
  obtain ⟨hf, hop⟩ := h
  obtain ⟨hf', hop'⟩ := h'
  cases hf.symm.trans hf'
  exact ⟨rfl, Option.some.inj (hop.symm.trans hop')⟩

theorem mem_moduleFindings {m : Module} {l : Located} :
    l ∈ moduleFindings tables settings m ↔ ∃ f op, m.OpAt l.function l.op f op ∧
      l.finding ∈ opFindings tables settings f op := by
  constructor
  · intro h
    obtain ⟨⟨f, i⟩, hf, h⟩ := List.mem_flatMap.1 h
    obtain ⟨⟨op, j⟩, hop, h⟩ := List.mem_flatMap.1 h
    obtain ⟨x, hx, rfl⟩ := List.mem_map.1 h
    exact ⟨f, op, ⟨List.mem_zipIdx_iff_getElem?.1 hf, List.mem_zipIdx_iff_getElem?.1 hop⟩, hx⟩
  · rintro ⟨f, op, ⟨hf, hop⟩, hx⟩
    exact List.mem_flatMap.2 ⟨(f, l.function), List.mem_zipIdx_iff_getElem?.2 hf,
      List.mem_flatMap.2 ⟨(op, l.op), List.mem_zipIdx_iff_getElem?.2 hop, List.mem_map_of_mem hx⟩⟩

theorem exists_mem_moduleFindings_iff {m : Module} {x : Finding} :
    (∃ l ∈ moduleFindings tables settings m, l.finding = x) ↔
      ∃ f ∈ m.functions, ∃ op ∈ f.ops, x ∈ opFindings tables settings f op := by
  constructor
  · rintro ⟨l, hl, rfl⟩
    obtain ⟨f, op, hat, hx⟩ := mem_moduleFindings.1 hl
    exact ⟨f, List.mem_of_getElem? hat.function, op, List.mem_of_getElem? hat.op, hx⟩
  · rintro ⟨f, hf, op, hop, hx⟩
    obtain ⟨i, hi⟩ := List.mem_iff_getElem?.1 hf
    obtain ⟨j, hj⟩ := List.mem_iff_getElem?.1 hop
    exact ⟨⟨i, j, x⟩, mem_moduleFindings.2 ⟨f, op, ⟨hi, hj⟩, hx⟩, rfl⟩

/-- A plan is made only where no finding is a reason to stop. -/
theorem Made.stop?_eq_none {m : Module}
    (hm : (moduleFindings tables settings m).findSome? Located.stop? = none)
    (hf : f ∈ m.functions) (hop : op ∈ f.ops) {x : Finding} (h : Made tables settings f op x) :
    x.stop? = none := by
  obtain ⟨l, hl, rfl⟩ := exists_mem_moduleFindings_iff.2 ⟨f, hf, op, hop, mem_opFindings.2 h⟩
  exact List.findSome?_eq_none_iff.1 hm l hl

end Calibration
