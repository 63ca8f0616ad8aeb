import Calibration.Proofs.Graph.Accepted
import Calibration.Proofs.Plan.Edits
import Calibration.Proofs.Table.Numbers

/-! # The floats after a calibration

Bounds are taken from records, but for their sign, or are fixed, and vectors are attached as they stand in
the table. So with finite tables only a scale that is derived from bounds can fail to be finite, and only an
empty vector puts an empty array of floats into the module.
-/
namespace Calibration

theorem OpKind.range_finite {r : Record} (h : r.Finite) (kind : OpKind) (asymmetric : Bool) :
    (kind.range r asymmetric).1.isFinite = true ∧ (kind.range r asymmetric).2.isFinite = true := by
  have hneg : (-r.threshold).isFinite = true := (Binary64.isFinite_neg _).trans h.threshold
  have hzero : (0 : Float).isFinite = true := by decide +kernel
  have hone : (1 : Float).isFinite = true := by decide +kernel
  have hlow : (if r.min < 0 then -r.threshold else 0).isFinite = true := by
    split
    · exact hneg
    · exact hzero
  cases kind with
  | abs => exact ⟨hneg, h.threshold⟩
  | sigmoid => exact ⟨hzero, hone⟩
  | _ =>
    cases asymmetric with
    | true => exact ⟨h.min, h.max⟩
    | false => exact ⟨hlow, h.threshold⟩

namespace Finding

def scales : Finding → List Float
  | .typed _ _ _ type => (type.params.map Affine.scale).toList
  | .outputBoundary _ p | .inputBoundary _ p => [p.scale]
  | _ => []

def vector? : Finding → Option (List Float)
  | .weightScales _ vector => some vector.scales
  | _ => none

def allFloats (x : Finding) : List Float :=
  (match x with
    | .typed _ _ _ type => type.allFloats
    | _ => []) ++ (x.attrs.map Prod.snd).flatMap Attribute.allFloats

/-- A change replaces an element, or it sets attributes. -/
theorem allFinite_change {x : Finding} {op : Operation} (hop : AllFinite op.allFloats)
    (hx : AllFinite x.allFloats) : AllFinite (x.change op).allFloats := by
  have hresults : ∀ v ∈ (x.change op).results, AllFinite v.type.allFloats := by
    have hold : ∀ v ∈ op.results, AllFinite v.type.allFloats := fun v hv =>
      Operation.isFinite_of_result hop hv
    rw [change_results]
    cases x with
    | typed k name old type =>
      refine forall_mem_modify (fun v hv => ?_) hold k
      split
      · exact hv
      · exact fun y hy => hx y (List.mem_append_left _ hy)
    | _ => exact hold
  have hattrs : ∀ a ∈ (x.change op).attributes, AllFinite a.allFloats := by
    intro a ha
    obtain ⟨e, he, rfl⟩ := List.mem_map.1 ha
    rw [change_attrs] at he
    rcases NameMap.mem_entries_insertAll he with he | he
    · exact Operation.isFinite_of_attr hop he
    · exact fun y hy => hx y (List.mem_append_right _
        (List.mem_flatMap.2 ⟨e.2, List.mem_map_of_mem he, hy⟩))
  exact allFinite_append (allFinite_flatMap hresults) (allFinite_flatMap hattrs)

theorem allFinite_foldl_change {xs : List Finding} (h : ∀ x ∈ xs, AllFinite x.allFloats)
    {op : Operation} (hop : AllFinite op.allFloats) :
    AllFinite (xs.foldl (fun o x => x.change o) op).allFloats := by
  induction xs generalizing op with
  | nil => exact hop
  | cons x xs ih =>
    obtain ⟨hx, hxs⟩ := List.forall_mem_cons.1 h
    exact ih hxs (allFinite_change hop hx)

end Finding

variable {tables : Tables} {settings : Settings}

/-- In finite tables nothing but a derived scale has to be looked at. -/
theorem Made.allFinite {f : Function} {op : Operation} {x : Finding} (ht : tables.Finite)
    (h : Made tables settings f op x) (hx : AllFinite x.scales) : AllFinite x.allFloats := by
  have hlookup {name : String} {allowed : Bool} {source : RecordSource} {r : Record}
      (hr : tables.lookup name allowed = some (source, r)) : r.Finite := by
    rcases Tables.lookup_eq_some_iff.1 hr with ⟨-, hr⟩ | ⟨-, -, -, hr⟩
    · exact ht.default _ _ hr
    · exact ht.int4 _ _ hr
  cases h with
  | @typed k v t source r type hk hv ht hd hr htype =>
    have hrange := op.kind.range_finite (hlookup hr) settings.asymmetric
    obtain ⟨-, hmin, hmax⟩ := Settings.of_typeFor? htype
    rw [← hmin, ← hmax] at hrange
    intro y hy
    rw [Finding.allFloats, Finding.attrs, List.map_nil, List.flatMap_nil, List.append_nil] at hy
    rcases List.mem_cons.1 hy with rfl | hy
    · exact hrange.1
    · rcases List.mem_cons.1 hy with rfl | hy
      · exact hrange.2
      · exact hx y hy
  | @weightScales name consumer vector hk hn hc hv hch =>
    have hvector : AllFinite vector.scales := ht.channelScales _ _ hv
    simpa [Finding.allFloats, Finding.attrs, Attribute.allFloats] using hvector
  | boundary hb =>
    cases hb with
    | output | input => exact hx
    | outputOverflow | inputOverflow => exact List.forall_mem_nil _
  | missingRecord | overflow | unusedWeight | sharedWeight | channelCount => exact List.forall_mem_nil _

theorem Function.allFinite_refreshed {f : Function} (h : ∀ op ∈ f.ops, AllFinite op.allFloats) :
    AllFinite f.refreshed.allFloats := by
  refine allFinite_append (allFinite_flatMap h) (allFinite_flatMap fun type ht => ?_)
  -- The type of an output is the type of a result.
  obtain ⟨name, -, ht⟩ := List.mem_filterMap.1 ht
  obtain ⟨v, hv, rfl⟩ := Option.map_eq_some_iff.1 ht
  obtain ⟨op, hop, hv⟩ := List.mem_flatMap.1 (List.mem_of_find?_eq_some hv)
  exact Operation.isFinite_of_result (h op hop) hv

theorem Operation.get?_calibrated_eq_floats_nil {f : Function} {op : Operation}
    (hop : .floats [] ∉ op.attributes) {key : String} :
    (op.calibrated tables settings f).attrs.get? key = some (.floats []) ↔
      key = weightScaleKey ∧ ∃ x ∈ opFindings tables settings f op, x.vector? = some [] := by
  rw [calibrated_attrs]
  constructor
  · intro h
    rcases NameMap.mem_entries_insertAll (NameMap.get?_eq_some_iff.1 h) with he | he
    · exact absurd (List.mem_map_of_mem he) hop
    · obtain ⟨x, hx, he⟩ := List.mem_flatMap.1 he
      cases x with
      | weightScales name vector =>
        obtain ⟨hkey, hnil⟩ := Prod.mk.inj (List.mem_singleton.1 he)
        exact ⟨hkey, _, hx, congrArg some (Attribute.floats.inj hnil).symm⟩
      | outputBoundary | inputBoundary => simp [Finding.attrs] at he
      | _ => cases he
  · rintro ⟨rfl, x, hx, hvector⟩
    cases x with
    | weightScales name vector =>
      have hnil : vector.scales = [] := Option.some.inj hvector
      rw [attrsSet_of_weightScales hx, NameMap.get?_insertAll, hnil]
      simp
    | _ => cases hvector

theorem Operation.floats_nil_mem_calibrated {f : Function} {op : Operation}
    (hop : .floats [] ∉ op.attributes) :
    .floats [] ∈ (op.calibrated tables settings f).attributes ↔
      ∃ x ∈ opFindings tables settings f op, x.vector? = some [] := by
  constructor
  · intro h
    obtain ⟨⟨key, a⟩, he, rfl⟩ := List.mem_map.1 h
    exact ((get?_calibrated_eq_floats_nil hop).1 (NameMap.get?_eq_some_iff.2 he)).2
  · intro h
    have hget : (op.calibrated tables settings f).attrs.get? weightScaleKey = some (.floats []) :=
      (get?_calibrated_eq_floats_nil hop).2 ⟨rfl, h⟩
    exact List.mem_map_of_mem (NameMap.get?_eq_some_iff.1 hget)

namespace Module
variable (tables settings)

def derivedScales (m : Module) : List Float :=
  (moduleFindings tables settings m).flatMap fun l => l.finding.scales

def attachedVectors (m : Module) : List (List Float) :=
  (moduleFindings tables settings m).filterMap fun l => l.finding.vector?

variable {tables settings}

theorem allFinite_calibratedFunctions {m : Module} (ht : tables.Finite) (hm : AllFinite m.allFloats)
    (hscales : AllFinite (m.derivedScales tables settings)) :
    ∀ f ∈ calibratedFunctions tables settings m.functions, AllFinite f.allFloats := by
  intro f' hf'
  obtain ⟨f, hf, rfl⟩ := List.mem_map.1 hf'
  refine Function.allFinite_refreshed fun op' hop' => ?_
  obtain ⟨op, hop, rfl⟩ := List.mem_map.1 hop'
  refine Finding.allFinite_foldl_change (fun x hx => (made_of_mem hx).allFinite ht ?_)
    (Function.isFinite_of_op (isFinite_of_function hm hf) hop)
  obtain ⟨l, hl, rfl⟩ := exists_mem_moduleFindings_iff.2 ⟨f, hf, op, hop, hx⟩
  exact fun y hy => hscales y (List.mem_flatMap.2 ⟨l, hl, hy⟩)

theorem floats_nil_not_mem_of_op {m : Module} (hm : .floats [] ∉ m.attributes) {f : Function}
    (hf : f ∈ m.functions) {op : Operation} (hop : op ∈ f.ops) : .floats [] ∉ op.attributes := fun h =>
  hm (List.mem_flatMap.2 ⟨f, hf, List.mem_flatMap.2 ⟨op, hop, h⟩⟩)

/-- An empty array of floats is a vector of a weight. -/
theorem of_get?_eq_floats_nil {m : Module} (hm : .floats [] ∉ m.attributes) {f' : Function}
    (hf' : f' ∈ calibratedFunctions tables settings m.functions) {op' : Operation}
    (hop' : op' ∈ f'.ops) {key : String} (hkey : op'.attrs.get? key = some (.floats [])) :
    op'.kind = .weight ∧ key = weightScaleKey := by
  obtain ⟨f, hf, rfl⟩ := List.mem_map.1 hf'
  obtain ⟨op, hop, rfl⟩ := List.mem_map.1 hop'
  obtain ⟨rfl, x, hx, hvector⟩ :=
    (Operation.get?_calibrated_eq_floats_nil (floats_nil_not_mem_of_op hm hf hop)).1 hkey
  cases made_of_mem hx with
  | weightScales hk => exact ⟨(op.calibrated_kind f).trans hk, rfl⟩
  | boundary hb => cases hb <;> cases hvector
  | _ => cases hvector

theorem floats_nil_mem_calibratedFunctions {m : Module} (hm : .floats [] ∉ m.attributes) :
    .floats [] ∈ (calibratedFunctions tables settings m.functions).flatMap Function.attributes ↔
      [] ∈ m.attachedVectors tables settings := by
  have hvector : [] ∈ m.attachedVectors tables settings ↔ ∃ f ∈ m.functions, ∃ op ∈ f.ops,
      ∃ x ∈ opFindings tables settings f op, x.vector? = some [] := by
    rw [attachedVectors, List.mem_filterMap]
    constructor
    · rintro ⟨l, hl, hx⟩
      obtain ⟨f, hf, op, hop, h⟩ := exists_mem_moduleFindings_iff.1 ⟨l, hl, rfl⟩
      exact ⟨f, hf, op, hop, _, h, hx⟩
    · rintro ⟨f, hf, op, hop, x, h, hx⟩
      obtain ⟨l, hl, rfl⟩ := exists_mem_moduleFindings_iff.2 ⟨f, hf, op, hop, h⟩
      exact ⟨l, hl, hx⟩
  rw [hvector, List.mem_flatMap]
  constructor
  · rintro ⟨f', hf', h⟩
    obtain ⟨f, hf, rfl⟩ := List.mem_map.1 hf'
    obtain ⟨op', hop', h⟩ := List.mem_flatMap.1 h
    obtain ⟨op, hmem, rfl⟩ := List.mem_map.1 hop'
    exact ⟨f, hf, op, hmem, (Operation.floats_nil_mem_calibrated (floats_nil_not_mem_of_op hm hf hmem)).1 h⟩
  · rintro ⟨f, hf, op, hmem, h⟩
    refine ⟨_, List.mem_map_of_mem hf, List.mem_flatMap.2 ⟨_, List.mem_map_of_mem hmem, ?_⟩⟩
    exact (Operation.floats_nil_mem_calibrated (floats_nil_not_mem_of_op hm hf hmem)).2 h

end Module
end Calibration
