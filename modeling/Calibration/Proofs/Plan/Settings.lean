import Calibration.Proofs.Plan.Boundaries
import Calibration.Proofs.Plan.TwoRuns

/-! # What the settings decide

Which values are typed, which attributes are set, what is counted and which error is reported is settled by the
module and the table. The mode decides on ranges and grids, and with the precision on whether a range that lacks
a map is met. Apart from this the precision decides on no more than the storage of the values that have a default
record, and with it on their parameters.
-/
namespace Calibration

section Relations
variable (tables : Tables) (s s' : Settings)

/-- Results of an operation of this kind that differ at most in how a value with a default record is
stored. -/
structure Value.SameButStorage (kind : OpKind) (v v' : Value) : Prop where
  name : v.name = v'.name
  type : v.type = v'.type ∨ kind.isCalibrated = true ∧ tables.default.get? v.name ≠ none ∧
    ∃ shape min max type type',
      CalibratedType.ofRange? s.precision.storage min max s.asymmetric = some type ∧
      CalibratedType.ofRange? s'.precision.storage min max s'.asymmetric = some type' ∧
      v.type = .tensor ⟨shape, .calibrated type⟩ ∧ v'.type = .tensor ⟨shape, .calibrated type'⟩

structure Operation.SameButStorage (op op' : Operation) : Prop where
  kind : op.kind = op'.kind
  operands : op.operands = op'.operands
  results : List.Forall₂ (Value.SameButStorage tables s s' op.kind) op.results op'.results
  attrs : op.attrs = op'.attrs

end Relations

variable {tables : Tables} {s s' : Settings} {f : Function} {op : Operation}

section Targets
variable (i j : Nat)

variable {ρ α γ : Type} {g : Edit → γ}

/-- What is made of a map does not look different for another one. -/
theorem viewed_map_elim {o : Option ρ} {a b : ρ → Option α} {mk : α → Finding}
    (h : (o.map fun r => (a r).elim .overflow mk) ≠ some .overflow)
    (h' : (o.map fun r => (b r).elim .overflow mk) ≠ some .overflow)
    (hmk : ∀ p p', (mk p).viewed g i j = (mk p').viewed g i j) :
    (o.map fun r => (a r).elim .overflow mk).map (Finding.viewed g i j) =
      (o.map fun r => (b r).elim .overflow mk).map (Finding.viewed g i j) := by
  cases o with
  | none => rfl
  | some r =>
    simp only [Option.map_some, ne_eq, Option.some.injEq] at h h' ⊢
    cases ha : a r with
    | none =>
      rw [ha] at h
      exact absurd rfl h
    | some p =>
      cases hb : b r with
      | none =>
        rw [hb] at h'
        exact absurd rfl h'
      | some p' => exact hmk p p'

theorem valueFinding?_target {v : Value} {k : Nat}
    (h : valueFinding? tables s op.kind v k ≠ some .overflow)
    (h' : valueFinding? tables s' op.kind v k ≠ some .overflow) :
    (valueFinding? tables s op.kind v k).map (Finding.viewed Edit.target i j) =
      (valueFinding? tables s' op.kind v k).map (Finding.viewed Edit.target i j) := by
  unfold valueFinding? at h h' ⊢
  cases ht : v.type with
  | none => rfl
  | tensor t =>
    simp only [ht] at h h' ⊢
    cases hd : t.element.isDiscrete with
    | true => rfl
    | false =>
      simp only [hd, Bool.false_eq_true, ↓reduceIte] at h h' ⊢
      cases hr : tables.lookup v.name op.kind.isConvOrMatMul with
      | none => rfl
      | some found =>
        rw [hr] at h h'
        exact viewed_map_elim i j (o := some found) (a := fun p => s.typeFor? op.kind p.1 p.2)
          (b := fun p => s'.typeFor? op.kind p.1 p.2) h h' fun _ _ => rfl

theorem valueFindings_target (h : .overflow ∉ valueFindings tables s op)
    (h' : .overflow ∉ valueFindings tables s' op) :
    (valueFindings tables s op).map (Finding.viewed Edit.target i j) =
      (valueFindings tables s' op).map (Finding.viewed Edit.target i j) := by
  unfold valueFindings at h h' ⊢
  rw [List.map_filterMap, List.map_filterMap]
  exact List.filterMap_congr fun p hp => valueFinding?_target i j
    (fun hx => h (List.mem_filterMap.2 ⟨p, hp, hx⟩)) fun hx => h' (List.mem_filterMap.2 ⟨p, hp, hx⟩)

theorem outputBoundary?_target {name : String}
    (h : outputBoundary? tables s f op name ≠ some .overflow)
    (h' : outputBoundary? tables s' f op name ≠ some .overflow) :
    (outputBoundary? tables s f op name).map (Finding.viewed Edit.target i j) =
      (outputBoundary? tables s' f op name).map (Finding.viewed Edit.target i j) := by
  unfold outputBoundary? at h h' ⊢
  split
  · next hany =>
    rw [if_pos hany] at h h'
    exact viewed_map_elim i j h h' fun _ _ => rfl
  · rfl

theorem inputBoundary?_target {name : String}
    (h : inputBoundary? tables s f op name ≠ some .overflow)
    (h' : inputBoundary? tables s' f op name ≠ some .overflow) :
    (inputBoundary? tables s f op name).map (Finding.viewed Edit.target i j) =
      (inputBoundary? tables s' f op name).map (Finding.viewed Edit.target i j) := by
  rw [inputBoundary?_eq] at h h'
  rw [inputBoundary?_eq, inputBoundary?_eq]
  cases hentry : f.entry? op with
  | none => rw [Option.bind_none, Option.bind_none]
  | some entry =>
    rw [hentry, Option.bind_some] at h h'
    rw [Option.bind_some, Option.bind_some]
    exact viewed_map_elim i j (a := fun r => entry.2.affine? r s.asymmetric 4)
      (b := fun r => entry.2.affine? r s'.asymmetric 4) h h' fun _ _ => rfl

theorem boundaryFindings_target (h : .overflow ∉ boundaryFindings tables s f op)
    (h' : .overflow ∉ boundaryFindings tables s' f op) :
    (boundaryFindings tables s f op).map (Finding.viewed Edit.target i j) =
      (boundaryFindings tables s' f op).map (Finding.viewed Edit.target i j) := by
  cases hn : op.name? with
  | none => rw [boundaryFindings_of_nameless hn, boundaryFindings_of_nameless hn]
  | some name =>
    rw [boundaryFindings_of_name? hn, List.mem_append, not_or, Option.mem_toList,
      Option.mem_toList] at h h'
    rw [boundaryFindings_of_name? hn, boundaryFindings_of_name? hn, List.map_append, List.map_append,
      ← Option.toList_map, ← Option.toList_map, ← Option.toList_map, ← Option.toList_map,
      outputBoundary?_target i j h.1 h'.1, inputBoundary?_target i j h.2 h'.2]

end Targets

/-- Where there are maps the settings decide neither on counts nor on what is overwritten. -/
theorem Module.alike_target {m : Module}
    (h : (moduleFindings tables s m).findSome? Located.stop? = none)
    (h' : (moduleFindings tables s' m).findSome? Located.stop? = none) :
    m.Alike Edit.target tables tables s s' := by
  intro f hf op hop i j
  have hmap {t : Settings} (ht : (moduleFindings tables t m).findSome? Located.stop? = none) :
      .overflow ∉ opFindings tables t f op := by
    intro hx
    cases (made_of_mem hx).stop?_eq_none ht hf hop
  have hx := hmap h
  have hx' := hmap h'
  rcases op.kind.isCalibrated_or_weight_or_plumbing with hk | hk | ⟨name, hk⟩
  · rw [opFindings_of_calibrated hk, List.mem_append, not_or] at hx hx'
    rw [opFindings_of_calibrated hk, opFindings_of_calibrated hk, List.map_append, List.map_append,
      valueFindings_target i j hx.1 hx'.1]
    congr 1
    split
    · next hc =>
      rw [if_pos hc] at hx hx'
      exact boundaryFindings_target i j hx.2 hx'.2
    · rfl
  · rw [opFindings_of_weight hk, opFindings_of_weight hk]
  · rw [opFindings_of_plumbing hk, opFindings_of_plumbing hk]

section SameMode
variable (h : s.asymmetric = s'.asymmetric)
include h

theorem Settings.typeFor?_int4 (kind : OpKind) (r : Record) :
    s.typeFor? kind .int4 r = s'.typeFor? kind .int4 r := by
  unfold typeFor?
  rw [h]
  rfl

/-- A range is that of its record in either precision. -/
theorem Settings.bounds_eq {kind : OpKind} {source : RecordSource} {r : Record}
    {type type' : CalibratedType} (htype : s.typeFor? kind source r = some type)
    (htype' : s'.typeFor? kind source r = some type') : type'.min = type.min ∧ type'.max = type.max := by
  obtain ⟨-, hmin, hmax⟩ := of_typeFor? htype
  obtain ⟨-, hmin', hmax'⟩ := of_typeFor? htype'
  rw [hmin, hmax, hmin', hmax', h]
  exact ⟨rfl, rfl⟩

theorem Value.calibrated_sameButStorage {kind : OpKind} (hk : kind.isCalibrated = true) {v : Value}
    (hv : v.Typable tables s kind) (hv' : v.Typable tables s' kind) :
    Value.SameButStorage tables s s' kind (v.calibrated tables s kind) (v.calibrated tables s' kind) := by
  by_cases hfound : ∃ t, v.type = .tensor t ∧ t.element.isDiscrete = false
  · obtain ⟨t, ht, hd⟩ := hfound
    obtain ⟨source, r, type, hr, htype⟩ := hv t ht hd
    obtain ⟨source', r', type', hr', htype'⟩ := hv' t ht hd
    cases hr.symm.trans hr'
    rw [Value.calibrated_of_lookup ht hd hr htype, Value.calibrated_of_lookup ht hd hr htype']
    refine ⟨rfl, ?_⟩
    rcases Tables.lookup_eq_some_iff.1 hr with ⟨rfl, hdefault⟩ | ⟨rfl, -, -, -⟩
    · rw [Settings.typeFor?, ← h] at htype'
      exact .inr ⟨hk, by simp [hdefault], t.shape, _, _, type, type', htype, h ▸ htype', rfl, rfl⟩
    · rw [Settings.typeFor?_int4 h, htype'] at htype
      cases htype
      exact .inl rfl
  · have hnone {settings : Settings} : v.calibrated tables settings kind = v :=
      Value.calibrated_of_not_lookup fun t ht hd => absurd ⟨t, ht, hd⟩ hfound
    rw [hnone, hnone]
    exact ⟨rfl, .inl rfl⟩

theorem attrsSet_of_mode (f : Function) (op : Operation) :
    attrsSet tables s f op = attrsSet tables s' f op := by
  obtain ⟨asymmetric, p⟩ := s
  obtain ⟨asymmetric', p'⟩ := s'
  cases h
  exact attrsSet_of_form rfl rfl p p'

theorem Operation.calibrated_sameButStorage (f : Function) {op : Operation}
    (hop : op.Typable tables s) (hop' : op.Typable tables s') :
    Operation.SameButStorage tables s s' (op.calibrated tables s f) (op.calibrated tables s' f) where
  kind := (op.calibrated_kind f).trans (op.calibrated_kind f).symm
  operands := (op.calibrated_operands f).trans (op.calibrated_operands f).symm
  results := by
    rw [op.calibrated_kind f, op.calibrated_results f, op.calibrated_results f]
    split
    · next hk =>
      exact forall₂_map_map fun v hv =>
        Value.calibrated_sameButStorage h hk (hop hk v hv) (hop' hk v hv)
    · exact List.forall₂_same.2 fun v _ => ⟨rfl, .inl rfl⟩
  attrs := by rw [op.calibrated_attrs f, op.calibrated_attrs f, attrsSet_of_mode h]

end SameMode

namespace Module
variable {m m₁ m₂ : Module} {plan plan' : Plan}

section SameMode
variable (h : s.asymmetric = s'.asymmetric) (hp : m.CalibratedBy tables s plan m₁)
  (hp' : m.CalibratedBy tables s' plan' m₂)
include h hp hp'

theorem CalibratedBy.gives_of_mode {i j : Nat} {key : String} {a : Attribute} :
    plan.Gives i j key a ↔ plan'.Gives i j key a := by
  rw [hp.gives_iff, hp'.gives_iff]
  simp only [attrsSet_of_mode h]

/-- A value is typed in both precisions, over one range. -/
theorem CalibratedBy.types_of_mode {i j k : Nat} {v : Value} {type : CalibratedType}
    (hat : m.OpAt i j f op) (hv : op.results[k]? = some v) (htype : plan.Types i j k type) :
    ∃ type', plan'.Types i j k type' ∧ type'.min = type.min ∧ type'.max = type.max ∧
      (tables.default.get? v.name = none → type' = type) := by
  obtain ⟨f', op', hat', name, old, hx⟩ := hp.types_iff.1 htype
  obtain ⟨rfl, rfl⟩ := hat.unique hat'
  cases made_of_mem hx with
  | @typed k v' t source r type hk hv' ht hd hr hsome =>
    obtain rfl : v = v' := Option.some.inj (hv.symm.trans hv')
    obtain ⟨source', r', type', hr', hsome'⟩ := hp'.typable f (List.mem_of_getElem? hat.function) op
      (List.mem_of_getElem? hat.op) hk v (List.mem_of_getElem? hv) t ht hd
    cases hr.symm.trans hr'
    obtain ⟨hmin, hmax⟩ := Settings.bounds_eq h hsome hsome'
    refine ⟨type', hp'.types_iff.2 ⟨f, op, hat, _, _, mem_of_made (.typed hk hv ht hd hr hsome')⟩,
      hmin, hmax, ?_⟩
    intro hnone
    rcases Tables.lookup_eq_some_iff.1 hr with ⟨-, hdefault⟩ | ⟨rfl, -, -, -⟩
    · rw [hnone] at hdefault
      cases hdefault
    · rw [Settings.typeFor?_int4 h, hsome'] at hsome
      exact Option.some.inj hsome
  | boundary hb => cases hb

end SameMode

/-- The mode and whether values are stored as integers decide on failure. -/
theorem annotate_error_of_mode (hmode : s.asymmetric = s'.asymmetric)
    (h8 : s.precision = .int8 ↔ s'.precision = .int8) {stop : Stop CalibrationError} :
    (m.annotate tables s).2 = .error stop ↔ (m.annotate tables s').2 = .error stop := by
  have hoffender (p : Place) (stop : Stop CalibrationError) :
      m.Offender tables s p stop ↔ m.Offender tables s' p stop := by
    constructor
    · rintro ⟨f, hf, op, hop, ho⟩
      exact ⟨f, hf, op, hop, ho.of_mode hmode h8.1⟩
    · rintro ⟨f, hf, op, hop, ho⟩
      exact ⟨f, hf, op, hop, ho.of_mode hmode.symm h8.2⟩
  simp only [annotate_fails_iff, FirstOffender, hoffender]

/-- What is an offender with some settings alone is a range without a map, in asymmetric mode. -/
theorem Offender.overflow_or_of_settings (s' : Settings) {p : Place} {stop : Stop CalibrationError}
    (h : m.Offender tables s p stop) :
    stop = .overflow ∧ s.asymmetric = true ∨ m.Offender tables s' p stop := by
  cases stop with
  | overflow => exact .inl ⟨rfl, h.asymmetric_of_overflow⟩
  | reported e => exact .inr h.of_reported

theorem asymmetric_of_overflow (h : m.annotate tables s = (m, .error .overflow)) :
    s.asymmetric = true := by
  rcases annotate_fails_iff.1 (congrArg Prod.snd h) with
    ⟨-, hstop⟩ | ⟨-, fault, -, hstop⟩ | ⟨-, -, p, hp, -⟩
  · cases hstop
  · cases hstop
  · exact hp.asymmetric_of_overflow

/-- With any two settings a module fails for the same reason, or as much of it is counted and the same places
are overwritten, unless a run is broken off over a range without a map, in asymmetric mode. In one mode the same
attributes are set and values are typed over the same ranges; the precision shows in the storage of values with
a default record alone. Whether it is that of integers decides on failure, and nothing else of it does. -/
theorem settings_keep_what_is_calibrated (tables : Tables) (s s' : Settings) (m : Module) :
    ((m.annotate tables s = (m, .error .overflow) ∧ s.asymmetric = true) ∨
      (m.annotate tables s' = (m, .error .overflow) ∧ s'.asymmetric = true) ∨
      (∃ e, m.annotate tables s = (m, .error (.reported e)) ∧
        m.annotate tables s' = (m, .error (.reported e))) ∨
      ∃ plan plan' m₁ m₂, m.CalibratedBy tables s plan m₁ ∧ m.CalibratedBy tables s' plan' m₂ ∧
        plan.summary = plan'.summary ∧ plan.edits.map Edit.target = plan'.edits.map Edit.target ∧
        (s.asymmetric = s'.asymmetric →
          (∀ i j key a, plan.Gives i j key a ↔ plan'.Gives i j key a) ∧
          (∀ i j k f op v type, m.OpAt i j f op → op.results[k]? = some v → plan.Types i j k type →
            ∃ type', plan'.Types i j k type' ∧ type'.min = type.min ∧ type'.max = type.max ∧
              (tables.default.get? v.name = none → type' = type)) ∧
          m₁.Related (Operation.SameButStorage tables s s') m₂)) ∧
    (s.asymmetric = s'.asymmetric → (s.precision = .int8 ↔ s'.precision = .int8) →
      ∀ stop, (m.annotate tables s).2 = .error stop ↔ (m.annotate tables s').2 = .error stop) := by
  refine ⟨?_, fun hmode h8 stop => annotate_error_of_mode hmode h8⟩
  rcases annotate_of_offenders (fun _ _ h => h.overflow_or_of_settings s')
      (fun _ _ h => h.overflow_or_of_settings s) with
    hover | hover | ⟨stop, hstop, hstop'⟩ | ⟨plan, plan', m₁, m₂, hp, hp'⟩
  · exact .inl hover
  · exact .inr (.inl hover)
  · cases stop with
    | overflow => exact .inl ⟨hstop, asymmetric_of_overflow hstop⟩
    | reported e => exact .inr (.inr (.inl ⟨e, hstop, hstop'⟩))
  · obtain ⟨hsummary, hedits⟩ := (alike_target hp.clear hp'.clear).plans hp hp'
    refine .inr (.inr (.inr ⟨plan, plan', m₁, m₂, hp, hp', hsummary, hedits, fun h => ⟨?_, ?_, ?_⟩⟩))
    · exact fun i j key a => CalibratedBy.gives_of_mode h hp hp'
    · exact fun i j k f op v type hat hv htype => CalibratedBy.types_of_mode h hp hp' hat hv htype
    · exact hp.related hp' fun f hf op hop =>
        Operation.calibrated_sameButStorage h f (hp.typable f hf op hop) (hp'.typable f hf op hop)

/-- Five values are stored in another way with the second precision; the product has its four bits with
both. Between floats nothing changes in whether a run fails. -/
theorem settings_keep_what_is_calibrated_crossing : (∃ plan plan' m₁ m₂ type,
    crossing.CalibratedBy crossingTables ⟨true, .int8⟩ plan m₁ ∧
    crossing.CalibratedBy crossingTables ⟨true, .bf16⟩ plan' m₂ ∧
    plan.summary = plan'.summary ∧ plan.edits.map Edit.target = plan'.edits.map Edit.target ∧
    m₁.Related (Operation.SameButStorage crossingTables ⟨true, .int8⟩ ⟨true, .bf16⟩) m₂ ∧
    plan.Types 0 3 0 type ∧ plan'.Types 0 3 0 type) ∧
    ∀ stop, (crossing.annotate crossingTables ⟨true, .bf16⟩).2 = .error stop ↔
      (crossing.annotate crossingTables ⟨true, .f32⟩).2 = .error stop := by
  refine ⟨?_, (settings_keep_what_is_calibrated _ _ _ _).2 rfl (by decide)⟩
  have hrun := annotate_crossing_snd
  have hrun' : (crossing.annotate crossingTables ⟨true, .bf16⟩).2 = .ok ⟨6, 0, 1, 2⟩ := by
    decide +kernel
  rcases (settings_keep_what_is_calibrated crossingTables ⟨true, .int8⟩ ⟨true, .bf16⟩ crossing).1 with
    ⟨hover, -⟩ | ⟨hover, -⟩ | ⟨e, he, -⟩ | ⟨plan, plan', m₁, m₂, hp, hp', hsummary, hedits, hmode⟩
  · rw [hover] at hrun
    cases hrun
  · rw [hover] at hrun'
    cases hrun'
  · rw [he] at hrun
    cases hrun
  · obtain ⟨-, htypes, hsame⟩ := hmode rfl
    have htype := hp.types_iff.2 ⟨_, _, crossing_product, "d", .f32, typed_crossing⟩
    obtain ⟨type', htype', -, -, hint4⟩ := htypes 0 3 0 _ _ _ _ crossing_product rfl htype
    exact ⟨plan, plan', m₁, m₂, _, hp, hp', hsummary, hedits, hsame, htype, hint4 rfl ▸ htype'⟩

/-- As floats all values of the product are typed. As integers the input cannot be. -/
theorem settings_of_farProduct :
    (product.annotate farProductTables ⟨true, .f32⟩).2 = .ok ⟨2, 1, 0, 0⟩ ∧
    (product.annotate farProductTables ⟨true, .int8⟩).2 = .error .overflow := by
  constructor <;> decide +kernel

end Module

end Calibration
