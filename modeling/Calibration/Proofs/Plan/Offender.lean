import Calibration.Proofs.Plan.Ending
import Calibration.Proofs.Plan.Made
import Calibration.Proofs.Plan.Ranges

/-! # What stops a calibration

A result without a usable record stops it, and so does a weight whose scales are not as many as its
channels. A range that has no map breaks it off, wherever the range is asked for: at a result, or at a
boundary, after the results. All of them are told here from the operation, its function, the tables and the
settings. In a well-formed float graph the first in program order decides, and nothing else makes planning
fail.
-/
namespace Calibration

def Function.FirstUser (f : Function) (name : String) (user : Operation) : Prop :=
  ∃ before after, f.ops = before ++ user :: after ∧ name ∈ user.operands ∧
    ∀ o ∈ before, name ∉ o.operands

theorem Function.head?_users {f : Function} {name : String} {user : Operation} :
    (f.users name).head? = some user ↔ f.FirstUser name user := by
  rw [users, List.head?_filter, List.find?_eq_some_iff_append]
  simp only [Operation.uses, List.contains_iff_mem, Bool.not_eq_true', ← Bool.not_eq_true]
  constructor
  · rintro ⟨hu, before, after, hops, hbefore⟩
    exact ⟨before, after, hops, hu, hbefore⟩
  · rintro ⟨before, after, hops, hu, hbefore⟩
    exact ⟨hu, before, after, hops, hbefore⟩

theorem Function.consumer?_eq_some_iff {f : Function} {name consumer : String} :
    f.consumer? name = some consumer ↔
      ∃ user, f.FirstUser name user ∧ user.name? = some consumer := by
  simp only [consumer?, Option.bind_eq_some_iff, head?_users]

theorem Operation.channels?_eq_some_iff {op : Operation} {n : Nat} :
    op.channels? = some n ↔ ∃ w dim dims element, op.results.head? = some w ∧
      w.type = .tensor ⟨dim :: dims, element⟩ ∧ 0 ≤ dim ∧ n = dim.toInt.toNat := by
  unfold channels?
  cases hw : op.results.head? with
  | none => simp
  | some w =>
    cases ht : w.type with
    | none => simp [ht, ValueType.tensor?]
    | tensor t =>
      obtain ⟨shape, element⟩ := t
      cases shape with
      | nil => simp [ht, ValueType.tensor?]
      | cons dim dims => simp [ht, ValueType.tensor?, eq_comm (a := n)]

variable (tables : Tables) (settings : Settings)

/-- At this index an operation of `f` stops a calibration for this reason. The boundaries come after the
results. -/
inductive Offends (f : Function) (op : Operation) : Nat → Stop CalibrationError → Prop
  | missingRecord {k : Nat} {v : Value} {t : TensorType} (hk : op.kind.isCalibrated = true)
    (hv : op.results[k]? = some v) (ht : v.type = .tensor t) (hd : t.element.isDiscrete = false)
    (hn : tables.default.get? v.name = none)
    (h4 : op.kind = .conv ∨ op.kind = .matMul → tables.int4.get? v.name = none) :
    Offends f op k (.reported (.missingRecord v.name op.kind))
  | channelCount {w : Value} {dim : Int64} {dims : List Int64} {element : ElementType}
    {user : Operation} {consumer : String} {vector : ChannelScales} (hk : op.kind = .weight)
    (hw : op.results.head? = some w) (hu : f.FirstUser w.name user)
    (hc : user.name? = some consumer)
    (hv : tables.channelScales.get? (consumer ++ "_weight") = some vector)
    (ht : w.type = .tensor ⟨dim :: dims, element⟩) (hdim : 0 ≤ dim)
    (hne : dim.toInt.toNat ≠ vector.scales.length) :
    Offends f op 0
      (.reported (.channelCount (consumer ++ "_weight") dim.toInt.toNat vector.scales.length))
  | default {k : Nat} {v : Value} {t : TensorType} {r : Record} (hk : op.kind.isCalibrated = true)
    (hv : op.results[k]? = some v) (ht : v.type = .tensor t) (hd : t.element.isDiscrete = false)
    (hr : tables.default.get? v.name = some r) (h8 : settings.precision = .int8)
    (hp : op.kind.affine? r settings.asymmetric 8 = none) : Offends f op k .overflow
  | int4 {k : Nat} {v : Value} {t : TensorType} {r : Record} (hk : op.kind = .conv ∨ op.kind = .matMul)
    (hv : op.results[k]? = some v) (ht : v.type = .tensor t) (hd : t.element.isDiscrete = false)
    (hn : tables.default.get? v.name = none) (hr : tables.int4.get? v.name = some r)
    (hp : op.kind.affine? r settings.asymmetric 4 = none) : Offends f op k .overflow
  | output {r : Record} (hc : OutputCrossing tables f op r)
    (hp : op.kind.affine? r settings.asymmetric 8 = none) : Offends f op op.results.length .overflow
  | input {kind : OpKind} {r : Record} (hc : InputCrossing tables f op kind r)
    (hp : kind.affine? r settings.asymmetric 4 = none) : Offends f op (op.results.length + 1) .overflow

abbrev Place := Nat × Nat × Nat

def Place.Before : Place → Place → Prop :=
  Prod.Lex (fun i j : Nat => i < j) (Prod.Lex (fun i j : Nat => i < j) fun i j : Nat => i < j)

def Module.Offender (m : Module) (p : Place) (stop : Stop CalibrationError) : Prop :=
  ∃ f, m.functions[p.1]? = some f ∧ ∃ op, f.ops[p.2.1]? = some op ∧
    Offends tables settings f op p.2.2 stop

def Module.FirstOffender (m : Module) (stop : Stop CalibrationError) : Prop :=
  ∃ p, m.Offender tables settings p stop ∧ ∀ q stop', m.Offender tables settings q stop' → ¬q.Before p

variable {tables settings} {f : Function} {op : Operation}

/-- Where an error is reported there is no other reason to stop. -/
theorem Offends.eq_of_reported {k k' : Nat} (hkk : k = k') {e : CalibrationError}
    {stop : Stop CalibrationError} (h : Offends tables settings f op k (.reported e))
    (h' : Offends tables settings f op k' stop) : stop = .reported e := by
  cases h with
  | missingRecord hk hv ht hd hn h4 =>
    subst hkk
    cases h' with
    | missingRecord _ hv' =>
      cases hv.symm.trans hv'
      rfl
    | channelCount hw => simp [hw, OpKind.isCalibrated] at hk
    | default _ hv' _ _ hr =>
      cases hv.symm.trans hv'
      cases hn.symm.trans hr
    | int4 hheavy hv' _ _ _ hr =>
      cases hv.symm.trans hv'
      cases (h4 hheavy).symm.trans hr
    | output | input => simp at hv
  | channelCount hw hr hu hc hv ht =>
    cases h' with
    | channelCount _ hr' hu' hc' hv' ht' =>
      cases hr.symm.trans hr'
      cases (Function.head?_users.2 hu).symm.trans (Function.head?_users.2 hu')
      cases hc.symm.trans hc'
      cases hv.symm.trans hv'
      cases ht.symm.trans ht'
      rfl
    | missingRecord hk | default hk => simp [hw, OpKind.isCalibrated] at hk
    | int4 hk => simp [hw] at hk
    | output hcross | input hcross => simpa [hw] using hcross.heavy

/-- There is one reason at most at each index. -/
theorem Offends.unique {k : Nat} {stop stop' : Stop CalibrationError}
    (h : Offends tables settings f op k stop) (h' : Offends tables settings f op k stop') :
    stop = stop' := by
  cases stop with
  | reported e => exact (h.eq_of_reported rfl h').symm
  | overflow =>
    cases stop' with
    | reported e => exact h'.eq_of_reported rfl h
    | overflow => rfl

/-- What a value reports, read from the value and its index alone. -/
theorem valueFinding?_stop_iff (hk : op.kind.isCalibrated = true) {k : Nat}
    {stop : Stop CalibrationError} :
    (∃ v, op.results[k]? = some v ∧
      (valueFinding? tables settings op.kind v k).bind Finding.stop? = some stop) ↔
        k < op.results.length ∧ Offends tables settings f op k stop := by
  constructor
  · rintro ⟨v, hv, h⟩
    refine ⟨(List.getElem?_eq_some_iff.1 hv).1, ?_⟩
    obtain ⟨x, hx, hstop⟩ := Option.bind_eq_some_iff.1 h
    obtain ⟨t, ht, hd, ⟨hr, rfl⟩ | ⟨source, r, hr, rfl⟩⟩ := valueFinding?_eq_some_iff.1 hx
    · cases hstop
      obtain ⟨hn, h4⟩ := Tables.lookup_eq_none_iff.1 hr
      exact .missingRecord hk hv ht hd hn fun hc => h4 (OpKind.isConvOrMatMul_iff.2 hc)
    · cases htype : settings.typeFor? op.kind source r with
      | some type =>
        rw [htype] at hstop
        cases hstop
      | none =>
        rw [htype] at hstop
        cases hstop
        rcases Tables.lookup_eq_some_iff.1 hr with ⟨rfl, hdefault⟩ | ⟨rfl, hheavy, hn, hint4⟩
        · obtain ⟨h8, hp⟩ := Settings.typeFor?_default_eq_none_iff.1 htype
          exact .default hk hv ht hd hdefault h8 hp
        · exact .int4 (OpKind.isConvOrMatMul_iff.1 hheavy) hv ht hd hn hint4
            (Settings.typeFor?_int4_eq_none_iff.1 htype)
  · rintro ⟨hlt, h⟩
    cases h with
    | @missingRecord k v t _ hv ht hd hn h4 =>
      have hr : tables.lookup v.name op.kind.isConvOrMatMul = none :=
        Tables.lookup_eq_none_iff.2 ⟨hn, fun hc => h4 (OpKind.isConvOrMatMul_iff.1 hc)⟩
      have hx : valueFinding? tables settings op.kind v k = some _ :=
        valueFinding?_eq_some_iff.2 ⟨t, ht, hd, .inl ⟨hr, rfl⟩⟩
      exact ⟨v, hv, by rw [hx]; rfl⟩
    | channelCount hw => simp [hw, OpKind.isCalibrated] at hk
    | @default k v t r _ hv ht hd hr h8 hp =>
      have hx : valueFinding? tables settings op.kind v k = some .overflow :=
        valueFinding?_eq_some_iff.2 ⟨t, ht, hd, .inr ⟨_, r, Tables.lookup_of_default hr, by
          rw [Settings.typeFor?_default_eq_none_iff.2 ⟨h8, hp⟩]; rfl⟩⟩
      exact ⟨v, hv, by rw [hx]; rfl⟩
    | @int4 k v t r hheavy hv ht hd hn hr hp =>
      have hlookup := Tables.lookup_of_int4 (OpKind.isConvOrMatMul_iff.2 hheavy) hn hr
      have hx : valueFinding? tables settings op.kind v k = some .overflow :=
        valueFinding?_eq_some_iff.2 ⟨t, ht, hd, .inr ⟨_, r, hlookup, by
          rw [Settings.typeFor?_int4_eq_none_iff.2 hp]; rfl⟩⟩
      exact ⟨v, hv, by rw [hx]; rfl⟩
    | output | input => omega

theorem Offends.made (hk : op.kind.isCalibrated = false) {k : Nat} {stop : Stop CalibrationError}
    (h : Offends tables settings f op k stop) :
    ∃ x, Made tables settings f op x ∧ x.stop? = some stop := by
  have hheavy : ¬(op.kind = .conv ∨ op.kind = .matMul) := fun hc => by
    simp [OpKind.isCalibrated_of_heavy hc] at hk
  cases h with
  | channelCount hw hhead hu hc hv ht hdim hne =>
    have hname : op.name? = some _ := congrArg (Option.map Value.name) hhead
    have hconsumer := Function.consumer?_eq_some_iff.2 ⟨_, hu, hc⟩
    have hchannels := Operation.channels?_eq_some_iff.2 ⟨_, _, _, _, hhead, ht, hdim, rfl⟩
    exact ⟨_, .channelCount hw hname hconsumer hv hchannels hne, rfl⟩
  | missingRecord hk' | default hk' => simp [hk] at hk'
  | int4 hk' => exact absurd hk' hheavy
  | output hc | input hc => exact absurd hc.heavy hheavy

/-- Where no value is asked for, a reason to stop is about result 0 of a weight. -/
theorem Made.offends_zero (hk : op.kind.isCalibrated = false) {x : Finding}
    {stop : Stop CalibrationError} (h : Made tables settings f op x) (hstop : x.stop? = some stop) :
    Offends tables settings f op 0 stop := by
  cases h with
  | channelCount hw hn hc hv hch hne =>
    cases hstop
    obtain ⟨w, hhead, hname⟩ := Option.map_eq_some_iff.1 hn
    subst hname
    obtain ⟨user, hu, hc⟩ := Function.consumer?_eq_some_iff.1 hc
    obtain ⟨w', dim, dims, element, hhead', ht, hdim, rfl⟩ := Operation.channels?_eq_some_iff.1 hch
    cases hhead.symm.trans hhead'
    exact .channelCount hw hhead hu hc hv ht hdim hne
  | missingRecord hk' | overflow hk' => simp [hk] at hk'
  | boundary hb =>
    simp [OpKind.isCalibrated_of_heavy hb.heavy] at hk
  | _ => cases hstop

/-- The first reason to stop at the results. -/
theorem firstHit_valueFindings (hk : op.kind.isCalibrated = true) :
    FirstHit (fun i j : Nat => i < j)
      (fun k stop => k < op.results.length ∧ Offends tables settings f op k stop)
      ((valueFindings tables settings op).findSome? Finding.stop?) := by
  rw [valueFindings, findSome?_filterMap]
  exact (firstHit_walk op.results).congr fun k stop => valueFinding?_stop_iff hk

/-- The first reason to stop at the boundaries, that on the side of the output before the other. -/
theorem firstHit_boundaryFindings (hk : op.kind = .conv ∨ op.kind = .matMul) :
    FirstHit (fun i j : Nat => i < j)
      (fun k stop => op.results.length ≤ k ∧ Offends tables settings f op k stop)
      ((boundaryFindings tables settings f op).findSome? Finding.stop?) := by
  have hreason {k : Nat} {stop : Stop CalibrationError} (hle : op.results.length ≤ k)
      (h : Offends tables settings f op k stop) : stop = .overflow ∧
        (k = op.results.length ∧ (∃ r, OutputCrossing tables f op r ∧
            op.kind.affine? r settings.asymmetric 8 = none) ∨
          k = op.results.length + 1 ∧ ∃ kind r, InputCrossing tables f op kind r ∧
            kind.affine? r settings.asymmetric 4 = none) := by
    cases h with
    | missingRecord _ hv | default _ hv | int4 _ hv =>
      have hlt := (List.getElem?_eq_some_iff.1 hv).1
      omega
    | channelCount hw => simp [hw] at hk
    | output hc hp => exact ⟨rfl, .inl ⟨rfl, _, hc, hp⟩⟩
    | input hc hp => exact ⟨rfl, .inr ⟨rfl, _, _, hc, hp⟩⟩
  cases hn : op.name? with
  | none =>
    rw [boundaryFindings_of_nameless hn]
    rintro k stop ⟨hle, h⟩
    obtain ⟨-, ⟨-, r, hc, -⟩ | ⟨-, kind, r, hc, -⟩⟩ := hreason hle h <;>
      simpa [hn] using hc.name?_isSome
  | some name =>
    have hstop {k : Nat} {x? : Option Finding} :
        FirstHit (fun i j : Nat => i < j) (fun p e => p = k ∧ x?.bind Finding.stop? = some e)
          (x?.toList.findSome? Finding.stop?) := by
      have hoption : x?.toList.findSome? Finding.stop? = x?.bind Finding.stop? := by
        cases x? with
        | none => rfl
        | some x => simp
      rw [hoption]
      exact firstHit_single k _
    rw [boundaryFindings_of_name? hn, List.findSome?_append]
    refine (FirstHit.or (hstop (k := op.results.length)) (hstop (k := op.results.length + 1)) ?_).congr ?_
    · rintro p e q e' ⟨rfl, -⟩ ⟨rfl, -⟩
      omega
    · intro k stop
      rw [outputBoundary?_stop_iff hk hn, inputBoundary?_stop_iff hk hn]
      constructor
      · rintro (⟨rfl, rfl, r, hc, hp⟩ | ⟨rfl, rfl, kind, r, hc, hp⟩)
        · exact ⟨Nat.le_refl _, .output hc hp⟩
        · exact ⟨Nat.le_succ _, .input hc hp⟩
      · rintro ⟨hle, h⟩
        obtain ⟨rfl, ⟨rfl, hout⟩ | ⟨rfl, hin⟩⟩ := hreason hle h
        · exact .inl ⟨rfl, rfl, hout⟩
        · exact .inr ⟨rfl, rfl, hin⟩

/-- The reasons to stop for one operation, in the order of its results and then of its boundaries. -/
theorem firstHit_opFindings :
    FirstHit (fun i j : Nat => i < j) (Offends tables settings f op)
      ((opFindings tables settings f op).findSome? Finding.stop?) := by
  cases hk : op.kind.isCalibrated with
  | true =>
    have hrest : FirstHit (fun i j : Nat => i < j)
        (fun k stop => op.results.length ≤ k ∧ Offends tables settings f op k stop)
        ((if op.kind.isConvOrMatMul then boundaryFindings tables settings f op else []).findSome?
          Finding.stop?) := by
      split
      · next hc => exact firstHit_boundaryFindings (OpKind.isConvOrMatMul_iff.1 hc)
      · next hc =>
        rintro k stop ⟨hle, h⟩
        cases h with
        | missingRecord _ hv | default _ hv | int4 _ hv =>
          have hlt := (List.getElem?_eq_some_iff.1 hv).1
          omega
        | channelCount hw => simp [hw, OpKind.isCalibrated] at hk
        | output hcross | input hcross => exact hc (OpKind.isConvOrMatMul_iff.2 hcross.heavy)
    rw [opFindings_of_calibrated hk, List.findSome?_append]
    refine ((firstHit_valueFindings (f := f) hk).or hrest ?_).congr fun k stop => ?_
    · rintro p e q e' ⟨hp, -⟩ ⟨hq, -⟩
      omega
    · rw [← or_and_right]
      exact and_iff_right (Nat.lt_or_ge k op.results.length)
  | false =>
    -- All reasons are about result 0, so there is no order to keep.
    cases hr : (opFindings tables settings f op).findSome? Finding.stop? with
    | none =>
      intro k stop h
      obtain ⟨x, hx, hstop⟩ : ∃ x, Made tables settings f op x ∧ x.stop? = some stop := h.made hk
      have hnone := List.findSome?_eq_none_iff.1 hr x (mem_of_made hx)
      rw [hstop] at hnone
      cases hnone
    | some stop =>
      obtain ⟨x, hx, hstop⟩ := List.exists_of_findSome?_eq_some hr
      exact ⟨0, (made_of_mem hx).offends_zero hk hstop, fun q e' _ => Nat.not_lt_zero q⟩

theorem findSome?_moduleFindings (m : Module) :
    (moduleFindings tables settings m).findSome? Located.stop? =
      m.functions.zipIdx.findSome? fun p => p.1.ops.zipIdx.findSome? fun q =>
        (opFindings tables settings p.1 q.1).findSome? Finding.stop? := by
  have hfunction (f : Function) (i : Nat) :
      (functionFindings tables settings i f).findSome? Located.stop? =
        f.ops.zipIdx.findSome? fun p =>
          (opFindings tables settings f p.1).findSome? Finding.stop? := by
    simp only [functionFindings, findSome?_flatMap, List.findSome?_map]
    rfl
  simp only [moduleFindings, findSome?_flatMap, hfunction]

/-- The reasons to stop for a module, in program order. -/
theorem firstHit_moduleFindings (m : Module) :
    FirstHit Place.Before (m.Offender tables settings)
      ((moduleFindings tables settings m).findSome? Located.stop?) := by
  rw [findSome?_moduleFindings]
  exact FirstHit.walk (fun f _ => FirstHit.walk (fun op _ => firstHit_opFindings) f.ops) m.functions

theorem Place.eq_of_not_before (p q : Place) (hpq : ¬p.Before q) (hqp : ¬q.Before p) : p = q :=
  eq_of_not_lex (eq_of_not_lex fun i j _ _ => by omega) p q hpq hqp

theorem Module.Offender.unique {m : Module} {p : Place} {stop stop' : Stop CalibrationError}
    (h : m.Offender tables settings p stop) (h' : m.Offender tables settings p stop') : stop = stop' := by
  obtain ⟨f, hf, op, hop, ho⟩ := h
  obtain ⟨f', hf', op', hop', ho'⟩ := h'
  cases hf.symm.trans hf'
  cases hop.symm.trans hop'
  exact ho.unique ho'

/-- Planning ends at the first offender. -/
theorem findSome?_moduleFindings_eq_some_iff {m : Module} {stop : Stop CalibrationError} :
    (moduleFindings tables settings m).findSome? Located.stop? = some stop ↔
      m.FirstOffender tables settings stop :=
  (firstHit_moduleFindings m).eq_some_iff Place.eq_of_not_before
    (fun _ _ _ => Module.Offender.unique) stop

theorem findSome?_moduleFindings_eq_none_iff {m : Module} :
    (moduleFindings tables settings m).findSome? Located.stop? = none ↔
      ∀ p stop, ¬m.Offender tables settings p stop :=
  (firstHit_moduleFindings m).eq_none_iff

/-- Errors do not depend on the settings. -/
theorem Offends.of_reported {settings' : Settings} {k : Nat} {e : CalibrationError}
    (h : Offends tables settings f op k (.reported e)) :
    Offends tables settings' f op k (.reported e) := by
  cases h with
  | missingRecord hk hv ht hd hn h4 => exact .missingRecord hk hv ht hd hn h4
  | channelCount hk hw hu hc hv ht hdim hne => exact .channelCount hk hw hu hc hv ht hdim hne

theorem Module.Offender.of_reported {settings' : Settings} {m : Module} {p : Place} {e : CalibrationError}
    (h : m.Offender tables settings p (.reported e)) : m.Offender tables settings' p (.reported e) := by
  obtain ⟨f, hf, op, hop, ho⟩ := h
  exact ⟨f, hf, op, hop, ho.of_reported⟩

/-- Of the settings the mode counts, and whether values are stored as integers. -/
theorem Offends.of_mode {settings' : Settings} (hmode : settings.asymmetric = settings'.asymmetric)
    (h8 : settings.precision = .int8 → settings'.precision = .int8) {k : Nat}
    {stop : Stop CalibrationError} (h : Offends tables settings f op k stop) :
    Offends tables settings' f op k stop := by
  cases h with
  | missingRecord hk hv ht hd hn h4 => exact .missingRecord hk hv ht hd hn h4
  | channelCount hk hw hu hc hv ht hdim hne => exact .channelCount hk hw hu hc hv ht hdim hne
  | default hk hv ht hd hr hs hp => exact .default hk hv ht hd hr (h8 hs) (hmode ▸ hp)
  | int4 hk hv ht hd hn hr hp => exact .int4 hk hv ht hd hn hr (hmode ▸ hp)
  | output hc hp => exact .output hc (hmode ▸ hp)
  | input hc hp => exact .input hc (hmode ▸ hp)

/-- Only the ranges that an asymmetric calibration takes from records lack a map. -/
theorem Offends.asymmetric_of_overflow {k : Nat} (h : Offends tables settings f op k .overflow) :
    settings.asymmetric = true := by
  cases h with
  | default _ _ _ _ _ _ hp | output _ hp => exact OpKind.asymmetric_of_affine?_eq_none (.inl rfl) hp
  | int4 _ _ _ _ _ _ hp | input _ hp => exact OpKind.asymmetric_of_affine?_eq_none (.inr rfl) hp

theorem Module.Offender.asymmetric_of_overflow {m : Module} {p : Place}
    (h : m.Offender tables settings p .overflow) : settings.asymmetric = true := by
  obtain ⟨f, -, op, -, ho⟩ := h
  exact ho.asymmetric_of_overflow

/-- A calibration fails for the state of the module first, then for its form, then for the first offender. -/
theorem Module.annotate_fails_iff {m : Module} {stop : Stop CalibrationError} :
    (m.annotate tables settings).2 = .error stop ↔
      (m.state ≠ .topF32 ∧ stop = .reported (.wrongState .topF32 m.state)) ∨
      (m.state = .topF32 ∧ ∃ fault, m.validate = .error fault ∧ stop = .reported (.graph fault)) ∨
      (m.state = .topF32 ∧ m.validate = .ok () ∧ m.FirstOffender tables settings stop) := by
  rw [← findSome?_moduleFindings_eq_some_iff]
  have hend := m.annotate_ending tables settings
  generalize m.annotate tables settings = r at hend
  cases hend with
  | wrongState hs => simp [hs, eq_comm]
  | malformed hs hv => simp [hs, hv, eq_comm]
  | stopped hs hv hf => simp [hs, hv, hf]
  | done hs hv hf => simp [hs, hv, hf]

/-- Places are finite in number, so one of several offenders is the first. -/
theorem Module.exists_firstOffender_iff {m : Module} :
    (∃ stop, m.FirstOffender tables settings stop) ↔ ∃ p stop, m.Offender tables settings p stop := by
  constructor
  · rintro ⟨stop, p, hp, -⟩
    exact ⟨p, stop, hp⟩
  · rintro ⟨p, stop, hp⟩
    cases hr : (moduleFindings tables settings m).findSome? Located.stop? with
    | none => exact absurd hp (findSome?_moduleFindings_eq_none_iff.1 hr p stop)
    | some stop' => exact ⟨stop', findSome?_moduleFindings_eq_some_iff.1 hr⟩

/-- Where every offender of one calibration is one of the other as well, or breaks the run off for a cause of its
own, the two stop alike, or one of them is broken off for such a cause. -/
theorem Module.stops_agree {tables' : Tables} {settings' : Settings} {m : Module} {C C' : Prop}
    (h : ∀ p stop, m.Offender tables settings p stop →
      stop = .overflow ∧ C ∨ m.Offender tables' settings' p stop)
    (h' : ∀ p stop, m.Offender tables' settings' p stop →
      stop = .overflow ∧ C' ∨ m.Offender tables settings p stop) :
    (m.FirstOffender tables settings .overflow ∧ C) ∨
      (m.FirstOffender tables' settings' .overflow ∧ C') ∨
      (moduleFindings tables settings m).findSome? Located.stop? =
        (moduleFindings tables' settings' m).findSome? Located.stop? := by
  cases hf : (moduleFindings tables settings m).findSome? Located.stop? with
  | none =>
    cases hf' : (moduleFindings tables' settings' m).findSome? Located.stop? with
    | none => exact .inr (.inr rfl)
    | some stop' =>
      have hfirst' : m.FirstOffender tables' settings' stop' := findSome?_moduleFindings_eq_some_iff.1 hf'
      obtain ⟨p, hp', -⟩ := id hfirst'
      rcases h' p stop' hp' with ⟨rfl, hC⟩ | hp
      · exact .inr (.inl ⟨hfirst', hC⟩)
      · exact absurd hp (findSome?_moduleFindings_eq_none_iff.1 hf p stop')
  | some stop =>
    have hfirst : m.FirstOffender tables settings stop := findSome?_moduleFindings_eq_some_iff.1 hf
    obtain ⟨p, hp, hbefore⟩ := id hfirst
    rcases h p stop hp with ⟨rfl, hC⟩ | hp'
    · exact .inl ⟨hfirst, hC⟩
    -- The other first offender does not come later, and earlier only for a cause of its own.
    obtain ⟨stop', hfirst'⟩ := m.exists_firstOffender_iff.2 ⟨p, stop, hp'⟩
    obtain ⟨q, hq', hbefore'⟩ := id hfirst'
    rcases h' q stop' hq' with ⟨rfl, hC⟩ | hq
    · exact .inr (.inl ⟨hfirst', hC⟩)
    · obtain rfl : p = q := p.eq_of_not_before q (hbefore' p stop hp') (hbefore q stop' hq)
      rw [hp.unique hq]
      exact .inr (.inr (findSome?_moduleFindings_eq_some_iff.2 hfirst').symm)

/-- A calibration fails for the state of the module first, then for its form, then for the first offender
in program order, and a first one there is as soon as there is any. Ranges without a map are among the
offenders, in asymmetric mode only. -/
theorem annotate_error_iff (tables : Tables) (settings : Settings) (m : Module) :
    (∀ stop, (m.annotate tables settings).2 = .error stop ↔
      (m.state ≠ .topF32 ∧ stop = .reported (.wrongState .topF32 m.state)) ∨
      (m.state = .topF32 ∧ ∃ fault, m.validate = .error fault ∧ stop = .reported (.graph fault)) ∨
      (m.state = .topF32 ∧ m.validate = .ok () ∧ m.FirstOffender tables settings stop)) ∧
    ((∃ stop, m.FirstOffender tables settings stop) ↔ ∃ p stop, m.Offender tables settings p stop) ∧
    ∀ p, m.Offender tables settings p .overflow → settings.asymmetric = true :=
  ⟨fun _ => m.annotate_fails_iff, m.exists_firstOffender_iff, fun _ => Module.Offender.asymmetric_of_overflow⟩

def farProductTables : Tables :=
  (Module.productTables [0.5, 0.25, 0.125]).insertDefault "x" ⟨1.5e308, 1e308, 1.5e308⟩

/-- No error is there to report, and yet the calibration does not succeed. -/
theorem annotate_farProduct :
    Module.product.state = .topF32 ∧ Module.product.validate = .ok () ∧
    (∀ p e, ¬Module.product.Offender farProductTables ⟨true, .int8⟩ p (.reported e)) ∧
    (Module.product.annotate farProductTables ⟨true, .int8⟩).2 = .error .overflow := by
  refine ⟨rfl, rfl, fun p e h => ?_, by decide +kernel⟩
  -- As floats the values are calibrated, and errors are the same there.
  have hfloat : (Module.product.annotate farProductTables ⟨true, .f32⟩).2 = .ok ⟨2, 1, 0, 0⟩ := by
    decide +kernel
  have hend := Module.annotate_ending farProductTables ⟨true, .f32⟩ Module.product
  generalize Module.product.annotate farProductTables ⟨true, .f32⟩ = r at hfloat hend
  cases hend with
  | wrongState | malformed | stopped => cases hfloat
  | done _ _ hf => exact findSome?_moduleFindings_eq_none_iff.1 hf p _ h.of_reported

end Calibration
