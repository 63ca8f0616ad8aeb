import Calibration.Proofs.Plan.Ending
import Calibration.Proofs.Plan.Made
import Mathlib.Data.List.Forall2

/-! # The types after a calibration

Which type a result gets is told from its own name and type, the kind of its operation and the tables,
without the walk that collects the edits and the walk that makes them. Of the findings for an operation
only those for its values touch the types, each at the index of its value.
-/
namespace Calibration

namespace Finding

def changeResults : Finding → List Value → List Value
  | .typed result _ _ type, vs => vs.modify result fun v =>
    match v.type with
    | .none => v
    | .tensor t => { v with type := .tensor { t with element := .calibrated type } }
  | _, vs => vs

theorem change_results (x : Finding) (op : Operation) :
    (x.change op).results = x.changeResults op.results := by
  cases x <;> rfl

theorem change_kind (x : Finding) (op : Operation) : (x.change op).kind = op.kind := by
  cases x <;> rfl

theorem foldl_change_results (xs : List Finding) (op : Operation) :
    (xs.foldl (fun o x => x.change o) op).results =
      xs.foldl (fun vs x => x.changeResults vs) op.results := by
  induction xs generalizing op with
  | nil => rfl
  | cons x xs ih => rw [List.foldl_cons, ih, change_results, List.foldl_cons]

/-- What no change touches is left alone by all of them. -/
theorem foldl_change_of_eq {α : Type} {part : Operation → α}
    (h : ∀ (x : Finding) (op : Operation), part (x.change op) = part op) (xs : List Finding)
    (op : Operation) : part (xs.foldl (fun o x => x.change o) op) = part op := by
  induction xs generalizing op with
  | nil => rfl
  | cons x xs ih => rw [List.foldl_cons, ih, h]

def KeepsTypes (x : Finding) : Prop := ∀ vs, x.changeResults vs = vs

theorem foldl_keepsTypes {xs : List Finding} (h : ∀ x ∈ xs, x.KeepsTypes) (vs : List Value) :
    xs.foldl (fun vs x => x.changeResults vs) vs = vs := by
  induction xs with
  | nil => rfl
  | cons x xs ih =>
    obtain ⟨hx, hxs⟩ := List.forall_mem_cons.1 h
    rw [List.foldl_cons, hx, ih hxs]

end Finding

variable (tables : Tables) (settings : Settings)

/-- What a calibration makes of the type of the result called `name` of an operation of this kind. -/
inductive Retyped (kind : OpKind) (name : String) : ValueType → ValueType → Prop
  | byDefault {t : TensorType} {r : Record} {type : CalibratedType} (hk : kind.isCalibrated = true)
    (hd : t.element.isDiscrete = false) (hr : tables.default.get? name = some r)
    (htype : CalibratedType.ofRange? settings.precision.storage (kind.range r settings.asymmetric).1
      (kind.range r settings.asymmetric).2 settings.asymmetric = some type) :
    Retyped kind name (.tensor t) (.tensor ⟨t.shape, .calibrated type⟩)
  | byInt4 {t : TensorType} {r : Record} {type : CalibratedType} (hk : kind = .conv ∨ kind = .matMul)
    (hd : t.element.isDiscrete = false) (hn : tables.default.get? name = none)
    (hr : tables.int4.get? name = some r)
    (htype : CalibratedType.ofRange? .int4 (kind.range r settings.asymmetric).1
      (kind.range r settings.asymmetric).2 settings.asymmetric = some type) :
    Retyped kind name (.tensor t) (.tensor ⟨t.shape, .calibrated type⟩)
  | otherKind {type : ValueType} (hk : kind.isCalibrated = false) : Retyped kind name type type
  | absent : Retyped kind name .none .none
  | discrete {t : TensorType} (hd : t.element.isDiscrete = true) :
    Retyped kind name (.tensor t) (.tensor t)

def Operation.RetypedTo (op op' : Operation) : Prop :=
  op'.kind = op.kind ∧
    List.Forall₂ (fun v v' : Value => v'.name = v.name ∧
      Retyped tables settings op.kind v.name v.type v'.type) op.results op'.results

def Module.RetypedTo (m m' : Module) : Prop :=
  List.Forall₂ (fun f f' : Function =>
    List.Forall₂ (Operation.RetypedTo tables settings) f.ops f'.ops) m.functions m'.functions

def Finding.changeValue : Finding → Value → Value
  | .typed _ _ _ type, v =>
    match v.type with
    | .none => v
    | .tensor t => { v with type := .tensor { t with element := .calibrated type } }
  | _, v => v

/-- The value after its own finding, which does not depend on its index. -/
def Value.calibrated (kind : OpKind) (v : Value) : Value :=
  (valueFinding? tables settings kind v 0).elim v fun x => x.changeValue v

variable {tables settings}

theorem changeResults_valueFinding {kind : OpKind} {v : Value} {k : Nat} {x : Finding}
    (h : valueFinding? tables settings kind v k = some x) (vs : List Value) :
    x.changeResults vs = vs.modify k x.changeValue := by
  obtain ⟨t, ht, hd, ⟨hr, rfl⟩ | ⟨source, r, hr, rfl⟩⟩ := valueFinding?_eq_some_iff.1 h
  · exact (List.modify_id k vs).symm
  · cases settings.typeFor? kind source r with
    | none => exact (List.modify_id k vs).symm
    | some type => rfl

theorem foldl_valueFinding (kind : OpKind) (v : Value) (k : Nat) :
    (valueFinding? tables settings kind v k).toList.foldl (fun v x => x.changeValue v) v =
      v.calibrated tables settings kind := by
  unfold Value.calibrated valueFinding?
  cases ht : v.type with
  | none => rfl
  | tensor t =>
    cases hd : t.element.isDiscrete with
    | true => simp [hd]
    | false =>
      cases tables.lookup v.name kind.isConvOrMatMul with
      | none => simp [hd, Finding.changeValue]
      | some p =>
        obtain ⟨source, r⟩ := p
        simp only [hd, Bool.false_eq_true, ↓reduceIte]
        cases settings.typeFor? kind source r <;> rfl

theorem foldl_valueFindings (op : Operation) :
    (valueFindings tables settings op).foldl (fun vs x => x.changeResults vs) op.results =
      op.results.map fun v => v.calibrated tables settings op.kind := by
  have hflat : valueFindings tables settings op = op.results.zipIdx.flatMap fun p =>
      (valueFinding? tables settings op.kind p.1 p.2).toList := by
    unfold valueFindings
    rw [List.filterMap_eq_flatMap_toList]
  rw [hflat]
  refine foldl_edits Finding.changeValue
    (fun v k => (valueFinding? tables settings op.kind v k).toList) _ ?_ ?_ op.results
  · intro v k x hx vs
    exact changeResults_valueFinding (Option.mem_toList.1 hx) vs
  · exact foldl_valueFinding op.kind

theorem Boundary.keepsTypes {f : Function} {op : Operation} {x : Finding}
    (h : Boundary tables settings f op x) : x.KeepsTypes := by
  cases h <;> exact fun vs => rfl

theorem Made.keepsTypes {f : Function} {op : Operation} {x : Finding}
    (h : Made tables settings f op x) (hk : op.kind.isCalibrated = false) : x.KeepsTypes := by
  cases h with
  | typed hk' => simp [hk] at hk'
  | boundary hb => exact hb.keepsTypes
  | _ => exact fun vs => rfl

theorem Operation.calibrated_kind (f : Function) (op : Operation) :
    (op.calibrated tables settings f).kind = op.kind :=
  Finding.foldl_change_of_eq Finding.change_kind _ op

/-- Results are given their types one by one, whatever else is found for the operation. -/
theorem Operation.calibrated_results (f : Function) (op : Operation) :
    (op.calibrated tables settings f).results =
      if op.kind.isCalibrated then op.results.map fun v => v.calibrated tables settings op.kind
      else op.results := by
  unfold Operation.calibrated
  rw [Finding.foldl_change_results]
  split
  · next hk =>
    rw [opFindings_of_calibrated hk, List.foldl_append, foldl_valueFindings]
    apply Finding.foldl_keepsTypes
    intro x hx
    split at hx
    · next hc => exact ((mem_boundaryFindings (OpKind.isConvOrMatMul_iff.1 hc)).1 hx).keepsTypes
    · cases hx
  · next hk =>
    apply Finding.foldl_keepsTypes
    intro x hx
    exact (made_of_mem hx).keepsTypes (by simpa using hk)

theorem Value.calibrated_name (kind : OpKind) (v : Value) :
    (v.calibrated tables settings kind).name = v.name := by
  unfold Value.calibrated
  cases valueFinding? tables settings kind v 0 with
  | none => rfl
  | some x =>
    cases x with
    | typed =>
      simp only [Option.elim_some, Finding.changeValue]
      split <;> rfl
    | _ => rfl

def Value.Typable (tables : Tables) (settings : Settings) (kind : OpKind) (v : Value) : Prop :=
  ∀ t, v.type = .tensor t → t.element.isDiscrete = false →
    ∃ source r type, tables.lookup v.name kind.isConvOrMatMul = some (source, r) ∧
      settings.typeFor? kind source r = some type

theorem Value.typable_of_findSome? {m : Module} {f : Function} {op : Operation}
    (hm : (moduleFindings tables settings m).findSome? Located.stop? = none)
    (hf : f ∈ m.functions) (hop : op ∈ f.ops) (hk : op.kind.isCalibrated = true) {v : Value}
    (hv : v ∈ op.results) : v.Typable tables settings op.kind := by
  intro t ht hd
  obtain ⟨k, hv⟩ := List.mem_iff_getElem?.1 hv
  cases hr : tables.lookup v.name op.kind.isConvOrMatMul with
  | none =>
    have hmade : Made tables settings f op (.missingRecord v.name op.kind) :=
      .missingRecord hk hv ht hd hr
    cases hmade.stop?_eq_none hm hf hop
  | some p =>
    obtain ⟨source, r⟩ := p
    cases htype : settings.typeFor? op.kind source r with
    | none =>
      have hmade : Made tables settings f op .overflow := .overflow hk hv ht hd hr htype
      cases hmade.stop?_eq_none hm hf hop
    | some type => exact ⟨source, r, type, rfl, htype⟩

/-- A value for which there is a type is given it. -/
theorem Value.calibrated_retyped {kind : OpKind} (hk : kind.isCalibrated = true) (v : Value)
    (h : v.Typable tables settings kind) :
    Retyped tables settings kind v.name v.type (v.calibrated tables settings kind).type := by
  unfold Value.calibrated valueFinding?
  cases ht : v.type with
  | none =>
    simp only [Option.elim_none, ht]
    exact .absent
  | tensor t =>
    cases hd : t.element.isDiscrete with
    | true =>
      simp only [hd, ↓reduceIte, Option.elim_none, ht]
      exact .discrete hd
    | false =>
      obtain ⟨source, r, type, hr, htype⟩ := h t ht hd
      simp only [hd, hr, htype, Bool.false_eq_true, ↓reduceIte, Option.elim_some, Finding.changeValue,
        ht]
      rcases Tables.lookup_eq_some_iff.1 hr with ⟨rfl, hdefault⟩ | ⟨rfl, h4, hn, hint4⟩
      · exact .byDefault hk hd hdefault htype
      · exact .byInt4 (OpKind.isConvOrMatMul_iff.1 h4) hd hn hint4 htype

theorem Operation.calibrated_retypedTo {m : Module} {f : Function} {op : Operation}
    (hm : (moduleFindings tables settings m).findSome? Located.stop? = none)
    (hf : f ∈ m.functions) (hop : op ∈ f.ops) :
    op.RetypedTo tables settings (op.calibrated tables settings f) := by
  refine ⟨op.calibrated_kind f, ?_⟩
  rw [op.calibrated_results f]
  split
  · next hk =>
    refine List.forall₂_map_right_iff.2 (List.forall₂_same.2 fun v hv => ⟨v.calibrated_name _, ?_⟩)
    exact v.calibrated_retyped hk (v.typable_of_findSome? hm hf hop hk hv)
  · next hk =>
    exact List.forall₂_same.2 fun v _ => ⟨rfl, .otherKind (by simpa using hk)⟩

namespace Module

theorem calibrated_ops (m : Module) :
    (m.calibrated tables settings).refresh.1.functions.map Function.ops =
      m.functions.map fun f => f.ops.map fun op => op.calibrated tables settings f := by
  rw [Module.refresh, refreshFunctions_ops]
  simp only [Module.calibrated, List.map_map]
  rfl

theorem retypedTo_of_ops {m m' : Module}
    (h : m'.functions.map Function.ops =
      m.functions.map fun f => f.ops.map fun op => op.calibrated tables settings f)
    (hm : (moduleFindings tables settings m).findSome? Located.stop? = none) :
    m.RetypedTo tables settings m' := by
  have hall : List.Forall₂ (fun (f : Function) ops =>
      List.Forall₂ (Operation.RetypedTo tables settings) f.ops ops) m.functions
      (m'.functions.map Function.ops) := by
    rw [h]
    refine List.forall₂_map_right_iff.2 (List.forall₂_same.2 fun f hf => ?_)
    refine List.forall₂_map_right_iff.2 (List.forall₂_same.2 fun op hop => ?_)
    exact Operation.calibrated_retypedTo hm hf hop
  exact List.forall₂_map_right_iff.1 hall

end Module

/-- Of a calibrated kind no plain float element is left by retyping. -/
theorem Retyped.element_ne {kind : OpKind} {name : String} {type : ValueType} {t : TensorType}
    (h : Retyped tables settings kind name type (.tensor t)) (hk : kind.isCalibrated = true) :
    t.element ≠ .f32 ∧ t.element ≠ .f16 ∧ t.element ≠ .bf16 := by
  cases h with
  | byDefault | byInt4 => simp
  | otherKind hk' => simp [hk] at hk'
  | discrete hd =>
    refine ⟨?_, ?_, ?_⟩ <;>
      (intro he; simp [he, ElementType.isDiscrete] at hd)

private theorem exists_mem_of_forall₂ {α β : Type} {R : α → β → Prop} {xs : List α} {ys : List β}
    (h : List.Forall₂ R xs ys) {b : β} (hb : b ∈ ys) : ∃ a ∈ xs, R a b := by
  induction h with
  | nil => cases hb
  | cons hr _ ih =>
    rcases List.mem_cons.1 hb with rfl | hb
    · exact ⟨_, List.mem_cons_self, hr⟩
    · obtain ⟨a, ha, hr⟩ := ih hb
      exact ⟨a, List.mem_cons_of_mem _ ha, hr⟩

namespace Module

theorem RetypedTo.element_ne {m m' : Module} (h : m.RetypedTo tables settings m') {f : Function}
    (hf : f ∈ m'.functions) {op : Operation} (hop : op ∈ f.ops)
    (hk : op.kind.isCalibrated = true) {v : Value} (hv : v ∈ op.results) {t : TensorType}
    (ht : v.type = .tensor t) : t.element ≠ .f32 ∧ t.element ≠ .f16 ∧ t.element ≠ .bf16 := by
  obtain ⟨f₀, -, hops⟩ := exists_mem_of_forall₂ h hf
  obtain ⟨op₀, -, hkind, hresults⟩ := exists_mem_of_forall₂ hops hop
  obtain ⟨v₀, -, -, hr⟩ := exists_mem_of_forall₂ hresults hv
  rw [ht] at hr
  exact hr.element_ne (hkind ▸ hk)

/-- After a successful calibration every result has the type that its name, its kind of operation and
the tables tell, and no result of a calibrated kind has a plain float element. -/
theorem annotate_retypes {m : Module} {s : Summary}
    (h : (m.annotate tables settings).2 = .ok s) :
    (m.annotate tables settings).1.state = .topCalibrated ∧
    m.RetypedTo tables settings (m.annotate tables settings).1 ∧
    ∀ f ∈ (m.annotate tables settings).1.functions, ∀ op ∈ f.ops, op.kind.isCalibrated = true →
      ∀ v ∈ op.results, ∀ t, v.type = .tensor t →
        t.element ≠ .f32 ∧ t.element ≠ .f16 ∧ t.element ≠ .bf16 := by
  have hend := annotate_ending tables settings m
  generalize m.annotate tables settings = r at h hend
  cases hend with
  | wrongState | malformed | stopped => cases h
  | done hs hv hf =>
    have hr : m.RetypedTo tables settings
        { (m.calibrated tables settings).refresh.1 with state := .topCalibrated } :=
      retypedTo_of_ops (calibrated_ops m) hf
    exact ⟨rfl, hr, fun f hf op hop hk v hv t ht => hr.element_ne hf hop hk hv ht⟩

/-- The input has a default record and is kept at the precision that was asked for, the product falls
back on its four-bit record, and the weight stays as it was. -/
theorem annotate_retypes_product :
    (product.annotate (productTables [0.5, 0.25, 0.125]) ⟨true, .bf16⟩).2 = .ok ⟨2, 1, 0, 0⟩ ∧
    product.RetypedTo (productTables [0.5, 0.25, 0.125]) ⟨true, .bf16⟩
      (product.annotate (productTables [0.5, 0.25, 0.125]) ⟨true, .bf16⟩).1 := by
  have hs : (product.annotate (productTables [0.5, 0.25, 0.125]) ⟨true, .bf16⟩).2 =
    .ok ⟨2, 1, 0, 0⟩ := by decide +kernel
  exact ⟨hs, (annotate_retypes hs).2.1⟩

end Module
end Calibration
