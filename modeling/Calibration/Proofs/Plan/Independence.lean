import Calibration.Proofs.Plan.Boundaries
import Mathlib.Data.List.Perm.Basic

/-! # Edits that do not meet

Every edit of a plan is made at a place that the module has, and no two change the same result or the same
attribute. So the edits can be made in any order: each finds its place whichever were made before it, and all
of them show in the end. The counts of a plan tell how many edits it has.
-/
namespace Calibration

namespace Edit

def Target.function : Target → Nat
  | .result function .. => function
  | .attribute function .. => function

def Target.op : Target → Nat
  | .result _ op _ => op
  | .attribute _ op _ => op

def part : Edit → Nat ⊕ String
  | .setType _ _ result _ => .inl result
  | .setAttr _ _ key _ => .inr key

def setsType : Edit → Bool
  | .setType .. => true
  | .setAttr .. => false

/-- The operation has what the edit replaces: a tensor among its results, if it is a type. -/
inductive FitsIn (op : Operation) : Edit → Prop
  | setType {i j k : Nat} {type : CalibratedType} {v : Value} {t : TensorType}
    (hv : op.results[k]? = some v) (ht : v.type = .tensor t) : FitsIn op (.setType i j k type)
  | setAttr {i j : Nat} {key : String} {a : Attribute} : FitsIn op (.setAttr i j key a)

inductive ShowsIn (op : Operation) : Edit → Prop
  | setType {i j k : Nat} {type : CalibratedType} {v : Value} {t : TensorType}
    (hv : op.results[k]? = some v) (ht : v.type = .tensor t) (he : t.element = .calibrated type) :
    ShowsIn op (.setType i j k type)
  | setAttr {i j : Nat} {key : String} {a : Attribute} (ha : op.attrs.get? key = some a) :
    ShowsIn op (.setAttr i j key a)

def Fits (m : Module) (e : Edit) : Prop := ∃ f op, m.OpAt e.function e.op f op ∧ e.FitsIn op

def Shows (m : Module) (e : Edit) : Prop := ∃ f op, m.OpAt e.function e.op f op ∧ e.ShowsIn op

/-- Edits made one after another, where each fits the module that those before it have left. -/
inductive Run : Module → List Edit → Module → Prop
  | nil {m : Module} : Run m [] m
  | cons {m m' : Module} {e : Edit} {es : List Edit} (he : e.Fits m) (hrest : Run (e.apply m) es m') :
    Run m (e :: es) m'

variable {m m' : Module} {e e' : Edit} {op : Operation}

section OneOperation

theorem setElement_self {k : Nat} {v : Value} {t : TensorType} (hv : op.results[k]? = some v)
    (ht : v.type = .tensor t) (e : ElementType) :
    (op.setElement k e).results[k]? = some { v with type := .tensor { t with element := e } } := by
  simp [Operation.setElement, hv, ht]

theorem setElement_of_ne {k k' : Nat} (hk : k' ≠ k) (op : Operation) (e : ElementType) :
    (op.setElement k' e).results[k]? = op.results[k]? := by
  simp [Operation.setElement, hk]

/-- A replaced type stays the type of a tensor. -/
theorem FitsIn.change (h : e.FitsIn op) (e' : Edit) : e.FitsIn (e'.change op) := by
  cases h with
  | setAttr => exact .setAttr
  | @setType _ _ k _ v t hv ht =>
    cases e' with
    | setAttr => exact .setType hv ht
    | setType i j k' type =>
      by_cases hk : k' = k
      · subst hk
        exact .setType (setElement_self hv ht _) rfl
      · exact .setType ((setElement_of_ne hk op _).trans hv) ht

theorem FitsIn.showsIn (h : e.FitsIn op) : e.ShowsIn (e.change op) := by
  cases h with
  | setAttr => exact .setAttr (NameMap.get?_insert_self _ _ _)
  | setType hv ht => exact .setType (setElement_self hv ht _) rfl rfl

theorem ShowsIn.change (h : e.ShowsIn op) (hne : e'.part ≠ e.part) : e.ShowsIn (e'.change op) := by
  cases h with
  | @setAttr i j key a ha =>
    cases e' with
    | setType => exact .setAttr ha
    | setAttr i' j' key' a' =>
      have hkey : key ≠ key' := fun h => hne (congrArg Sum.inr h.symm)
      exact .setAttr ((NameMap.get?_insert_of_ne _ _ hkey).trans ha)
  | @setType i j k type v t hv ht he =>
    cases e' with
    | setAttr => exact .setType hv ht he
    | setType i' j' k' type' =>
      have hk : k' ≠ k := fun h => hne (congrArg Sum.inl h)
      exact .setType ((setElement_of_ne hk op _).trans hv) ht he

/-- Changes of one operation that replace different parts of it are made in any order. -/
theorem change_comm (hne : e.part ≠ e'.part) (op : Operation) :
    e'.change (e.change op) = e.change (e'.change op) := by
  cases e with
  | setType i j k type =>
    cases e' with
    | setAttr => rfl
    | setType i' j' k' type' =>
      have hk : k ≠ k' := fun h => hne (congrArg Sum.inl h)
      exact congrArg (fun vs => { op with results := vs }) (modify_comm (fun h => absurd h hk) op.results)
  | setAttr i j key a =>
    cases e' with
    | setType => rfl
    | setAttr i' j' key' a' =>
      have hkey : key ≠ key' := fun h => hne (congrArg Sum.inr h)
      exact congrArg (fun as => { op with attrs := as }) (op.attrs.insert_comm hkey a a')

theorem part_ne (hfunction : e.function = e'.function) (hop : e.op = e'.op) (hne : e.target ≠ e'.target) :
    e.part ≠ e'.part := by
  intro hpart
  apply hne
  cases e <;> cases e' <;> simp_all [function, Edit.op, target, part]

end OneOperation

section OneModule

/-- The operation after the edit, if it is the one at its place. -/
theorem opAt_apply {i j : Nat} {f : Function} (h : m.OpAt i j f op) (e : Edit) :
    ∃ f', (e.apply m).OpAt i j f' (if e.function = i ∧ e.op = j then e.change op else op) := by
  rw [apply_eq]
  by_cases hi : e.function = i
  · refine ⟨f.modifyOp e.op e.change, ?_, ?_⟩
    · simp [Module.modifyFunction, hi, h.function]
    · by_cases hj : e.op = j
      · simp [Function.modifyOp, hi, hj, h.op]
      · simp [Function.modifyOp, hj, h.op]
  · refine ⟨f, ?_, ?_⟩
    · simp [Module.modifyFunction, hi, h.function]
    · simp [hi, h.op]

/-- No edit takes away what another replaces. -/
theorem Fits.apply (h : e.Fits m) (e' : Edit) : e.Fits (e'.apply m) := by
  obtain ⟨f, op, hat, hfits⟩ := h
  obtain ⟨f', hat'⟩ := opAt_apply hat e'
  refine ⟨f', _, hat', ?_⟩
  split
  · exact hfits.change e'
  · exact hfits

theorem Fits.shows (h : e.Fits m) : e.Shows (e.apply m) := by
  obtain ⟨f, op, hat, hfits⟩ := h
  obtain ⟨f', hat'⟩ := opAt_apply hat e
  rw [if_pos ⟨rfl, rfl⟩] at hat'
  exact ⟨f', _, hat', hfits.showsIn⟩

theorem Shows.apply (h : e.Shows m) (hne : e'.target ≠ e.target) : e.Shows (e'.apply m) := by
  obtain ⟨f, op, hat, hshows⟩ := h
  obtain ⟨f', hat'⟩ := opAt_apply hat e'
  refine ⟨f', _, hat', ?_⟩
  split
  · next hplace => exact hshows.change (part_ne hplace.1 hplace.2 hne)
  · exact hshows

/-- Edits with different targets do not see each other. -/
theorem apply_comm (hne : e.target ≠ e'.target) (m : Module) : e'.apply (e.apply m) = e.apply (e'.apply m) := by
  simp only [apply_eq]
  refine congrArg (fun fs => { m with functions := fs }) (modify_comm ?_ m.functions)
  intro hfunction f
  refine congrArg (fun ops => { f with ops := ops }) (modify_comm ?_ f.ops)
  intro hop op
  exact change_comm (part_ne hfunction hop hne) op

end OneModule

section Runs
variable {es es' : List Edit}

theorem run_of_fits (h : ∀ e ∈ es, e.Fits m) : Run m es (es.foldl apply m) := by
  induction es generalizing m with
  | nil => exact .nil
  | cons e es ih =>
    obtain ⟨he, hes⟩ := List.forall_mem_cons.1 h
    exact .cons he (ih fun e' he' => (hes e' he').apply e)

theorem Run.shows_of_shows (h : Run m es m') (he : e.Shows m) (hfresh : e.target ∉ es.map target) :
    e.Shows m' := by
  induction h with
  | nil => exact he
  | cons _ _ ih =>
    rw [List.map_cons, List.mem_cons, not_or] at hfresh
    exact ih (he.apply (Ne.symm hfresh.1)) hfresh.2

/-- What an edit has put somewhere is not replaced again. -/
theorem Run.shows (h : Run m es m') (hn : (es.map target).Nodup) : ∀ e ∈ es, e.Shows m' := by
  induction h with
  | nil => exact List.forall_mem_nil _
  | cons he hrest ih =>
    obtain ⟨hfresh, hn⟩ := List.nodup_cons.1 hn
    exact List.forall_mem_cons.2 ⟨hrest.shows_of_shows he.shows hfresh, ih hn⟩

theorem foldl_apply_perm (hn : (es.map target).Nodup) (h : es'.Perm es) (m : Module) :
    es'.foldl apply m = es.foldl apply m := by
  refine (h.symm.foldl_eq' ?_ m).symm
  intro e he e' he' m
  by_cases htarget : e.target = e'.target
  · rw [List.inj_on_of_nodup_map hn he he' htarget]
  · exact apply_comm htarget m

end Runs

end Edit

variable {tables : Tables} {settings : Settings} {m : Module}

section Targets

def Finding.typedAt : Finding → List Nat
  | .typed result .. => [result]
  | _ => []

theorem Finding.map_target_edits (x : Finding) (i j : Nat) : (x.edits i j).map Edit.target =
    x.typedAt.map (Edit.Target.result i j) ++ x.attrs.map fun e => Edit.Target.attribute i j e.1 := by
  cases x <;> rfl

theorem valueFindings_typedAt_nodup (op : Operation) :
    ((valueFindings tables settings op).flatMap Finding.typedAt).Nodup := by
  let typedAt (v : Value) (k : Nat) : List Nat :=
    (valueFinding? tables settings op.kind v k).toList.flatMap Finding.typedAt
  have hvalue (v : Value) (k : Nat) : (typedAt v k).Sublist [k] := by
    unfold typedAt
    cases h : valueFinding? tables settings op.kind v k with
    | none => exact List.nil_sublist _
    | some x =>
      obtain ⟨t, -, -, ⟨-, rfl⟩ | ⟨source, r, -, rfl⟩⟩ := valueFinding?_eq_some_iff.1 h
      · exact List.nil_sublist _
      · cases settings.typeFor? op.kind source r with
        | none => exact List.nil_sublist _
        | some type => exact List.Sublist.refl _
  rw [valueFindings, List.filterMap_eq_flatMap_toList, List.flatMap_assoc]
  refine nodup_flatMap_zipIdx typedAt id ?_ ?_ op.results
  · exact fun v k k' hk' => List.mem_singleton.1 ((hvalue v k).subset hk')
  · exact fun v k => (hvalue v k).nodup (List.nodup_singleton k)

theorem Boundary.typedAt_eq_nil {f : Function} {op : Operation} {x : Finding}
    (h : Boundary tables settings f op x) : x.typedAt = [] := by
  cases h <;> rfl

theorem Made.typedAt_eq_nil {f : Function} {op : Operation} {x : Finding}
    (h : Made tables settings f op x) (hk : op.kind.isCalibrated = false) : x.typedAt = [] := by
  cases h with
  | typed hk' =>
    rw [hk] at hk'
    cases hk'
  | boundary hb => exact hb.typedAt_eq_nil
  | _ => rfl

/-- No result of an operation is typed twice. -/
theorem opFindings_typedAt_nodup (f : Function) (op : Operation) :
    ((opFindings tables settings f op).flatMap Finding.typedAt).Nodup := by
  cases hk : op.kind.isCalibrated with
  | false =>
    have hnil : (opFindings tables settings f op).flatMap Finding.typedAt = [] :=
      List.flatMap_eq_nil_iff.2 fun x hx => (made_of_mem hx).typedAt_eq_nil hk
    rw [hnil]
    exact List.nodup_nil
  | true =>
    have hboundary : (if op.kind.isConvOrMatMul then boundaryFindings tables settings f op else []).flatMap
        Finding.typedAt = [] := by
      refine List.flatMap_eq_nil_iff.2 fun x hx => ?_
      split at hx
      · next hc =>
        exact ((mem_boundaryFindings (OpKind.isConvOrMatMul_iff.1 hc)).1 hx).typedAt_eq_nil
      · cases hx
    rw [opFindings_of_calibrated hk, List.flatMap_append, hboundary, List.append_nil]
    exact valueFindings_typedAt_nodup op

def opTargets (tables : Tables) (settings : Settings) (f : Function) (i : Nat) (op : Operation) (j : Nat) :
    List Edit.Target :=
  (opFindings tables settings f op).flatMap fun x => (x.edits i j).map Edit.target

theorem mem_opTargets {f : Function} {op : Operation} {i j : Nat} {t : Edit.Target}
    (h : t ∈ opTargets tables settings f i op j) : t.function = i ∧ t.op = j := by
  obtain ⟨x, -, h⟩ := List.mem_flatMap.1 h
  obtain ⟨e, he, rfl⟩ := List.mem_map.1 h
  have hplace := x.edits_place i j e he
  cases e <;> exact hplace

theorem opTargets_nodup (f : Function) (op : Operation) (i j : Nat) :
    (opTargets tables settings f i op j).Nodup := by
  have hresults : ((opFindings tables settings f op).flatMap fun x =>
      x.typedAt.map (Edit.Target.result i j)).Nodup := by
    rw [← List.map_flatMap]
    refine (opFindings_typedAt_nodup f op).map fun k k' h => ?_
    cases h
    rfl
  have hattributes : ((opFindings tables settings f op).flatMap fun x =>
      x.attrs.map fun e => Edit.Target.attribute i j e.1).Nodup := by
    rw [← List.map_flatMap, ← Function.comp_def (Edit.Target.attribute i j), ← List.map_map]
    refine (attrsSet_keys_nodup f op).map fun key key' h => ?_
    cases h
    rfl
  unfold opTargets
  simp only [Finding.map_target_edits]
  refine (List.flatMap_append_perm _ _ _).nodup_iff.1 (hresults.append hattributes fun t ht ht' => ?_)
  obtain ⟨x, -, ht⟩ := List.mem_flatMap.1 ht
  obtain ⟨x', -, ht'⟩ := List.mem_flatMap.1 ht'
  obtain ⟨k, -, rfl⟩ := List.mem_map.1 ht
  obtain ⟨e, -, he⟩ := List.mem_map.1 ht'
  cases he

/-- No two edits of a plan replace the same. -/
theorem Plan.targets_nodup (m : Module) :
    ((Plan.ofFindings (moduleFindings tables settings m)).edits.map Edit.target).Nodup := by
  simp only [Plan.edits_ofFindings, List.map_flatMap, ← opTargets.eq_1]
  refine nodup_flatMap_zipIdx
    (fun f i => f.ops.zipIdx.flatMap fun q => opTargets tables settings f i q.1 q.2) Edit.Target.function ?_ ?_
    m.functions
  · intro f i t ht
    obtain ⟨q, -, ht⟩ := List.mem_flatMap.1 ht
    exact (mem_opTargets ht).1
  · intro f i
    exact nodup_flatMap_zipIdx (opTargets tables settings f i) Edit.Target.op
      (fun op j t ht => (mem_opTargets ht).2) (fun op j => opTargets_nodup f op i j) f.ops

end Targets

/-- Every edit of a plan is made for what the operation at its place holds. -/
theorem Plan.fits {e : Edit} (he : e ∈ (Plan.ofFindings (moduleFindings tables settings m)).edits) :
    e.Fits m := by
  obtain ⟨i, j, f, op, hat, x, hx, he⟩ := Plan.mem_edits_iff.1 he
  obtain ⟨rfl, rfl⟩ := x.edits_place i j e he
  refine ⟨f, op, hat, ?_⟩
  cases e with
  | setAttr => exact .setAttr
  | setType i j k type =>
    obtain ⟨-, -, name, old, rfl⟩ := Finding.setType_mem_edits.1 he
    cases made_of_mem hx with
    | typed _ hv ht => exact .setType hv ht
    | boundary hb => cases hb

section Counts

theorem Finding.countP_edits (x : Finding) (i j : Nat) :
    (x.edits i j).countP Edit.setsType = x.summary.typedValues := by
  cases x <;> rfl

theorem Finding.length_edits (x : Finding) (i j : Nat) : (x.edits i j).length =
    x.summary.typedValues + x.summary.weightScales + 2 * x.summary.outputBoundaries +
      2 * x.summary.inputBoundaries := by
  cases x <;> rfl

theorem Plan.countP_edits (ls : List Located) :
    (Plan.ofFindings ls).edits.countP Edit.setsType = (Plan.ofFindings ls).summary.typedValues := by
  induction ls with
  | nil => rfl
  | cons l ls ih =>
    change (l.edits ++ (Plan.ofFindings ls).edits).countP _ =
      l.finding.summary.typedValues + (Plan.ofFindings ls).summary.typedValues
    rw [List.countP_append, ih, Located.edits, Finding.countP_edits]

theorem Plan.length_edits (ls : List Located) : (Plan.ofFindings ls).edits.length =
    (Plan.ofFindings ls).summary.typedValues + (Plan.ofFindings ls).summary.weightScales +
      2 * (Plan.ofFindings ls).summary.outputBoundaries + 2 * (Plan.ofFindings ls).summary.inputBoundaries := by
  induction ls with
  | nil => rfl
  | cons l ls ih =>
    have hl := l.finding.length_edits l.function l.op
    have hlength : (Plan.ofFindings (l :: ls)).edits.length =
        (l.finding.edits l.function l.op).length + (Plan.ofFindings ls).edits.length := List.length_append
    have hsummary : (Plan.ofFindings (l :: ls)).summary =
      l.finding.summary.add (Plan.ofFindings ls).summary := rfl
    rw [hlength, hsummary]
    simp only [Summary.add]
    omega

theorem Plan.isEmpty_iff (ls : List Located) :
    (Plan.ofFindings ls).isEmpty = true ↔ (Plan.ofFindings ls).summary = .zero := by
  have hlength := Plan.length_edits ls
  have hzero (s : Summary) : s = .zero ↔ s.typedValues = 0 ∧ s.weightScales = 0 ∧ s.outputBoundaries = 0 ∧
      s.inputBoundaries = 0 := by
    cases s
    simp [Summary.zero]
  rw [Plan.isEmpty, List.isEmpty_iff, ← List.length_eq_zero_iff, hzero]
  omega

end Counts

/-- A plan that is made holds edits of existing operations, and of tensors where they set types. No two have one
target, so that they can be made in any order and all of them show. They are as many as its counts say. -/
theorem Plan.edits_independent {plan : Plan} (h : Plan.make tables settings m = .ok plan) :
    (∀ e ∈ plan.edits, e.Fits m ∧ e.Shows (plan.apply m)) ∧
    (plan.edits.map Edit.target).Nodup ∧
    (∀ es : List Edit, es.Perm plan.edits → Edit.Run m es (plan.apply m)) ∧
    plan.edits.countP Edit.setsType = plan.summary.typedValues ∧
    plan.edits.length = plan.summary.typedValues + plan.summary.weightScales +
      2 * plan.summary.outputBoundaries + 2 * plan.summary.inputBoundaries ∧
    (plan.isEmpty = true ↔ plan.summary = .zero) := by
  cases Plan.eq_of_make h
  have hn := @Plan.targets_nodup tables settings m
  refine ⟨fun e he => ⟨Plan.fits he, ?_⟩, hn, fun es hes => ?_, Plan.countP_edits _, Plan.length_edits _,
    Plan.isEmpty_iff _⟩
  · exact (Edit.run_of_fits fun e he => Plan.fits he).shows hn e he
  · have hrun := Edit.run_of_fits (m := m) fun e he => Plan.fits (hes.mem_iff.1 he)
    rwa [Edit.foldl_apply_perm hn hes] at hrun

def Module.unruly : Module :=
  { name := "net", state := .tpuLowered
    functions := [{
      name := "main"
      ops := [crossingOp (.plumbing "Reshape") ["y"] "x",
        ⟨.weight, [], [⟨"w", .tensor ⟨[], .f32⟩⟩], .ofList [("scale", .int 1)]⟩,
        ⟨.conv, ["x", "w"], [⟨"c", .tensor ⟨[4], .f32⟩⟩, ⟨"mask", .none⟩, ⟨"c", .tensor ⟨[2], .f16⟩⟩], .empty⟩,
        ⟨.matMul, ["c"], [], .empty⟩,
        crossingOp (.inferable "Relu") ["c"] "c"]
      outputs := ["z"]
      outputTypes := [] }] }

def Module.unrulyTables : Tables :=
  ((Tables.empty.insertDefault "c" ⟨2, -1, 2⟩).insertInt4 "x" ⟨1, -1, 1⟩).insertChannelScales "c_weight" [0.5, 2]

/-- A plan is made all the same, and its edits can be made from the last to the first. -/
theorem Plan.edits_independent_unruly : (∃ e, Module.unruly.validate = .error e) ∧
    ∃ plan, Plan.make Module.unrulyTables ⟨true, .int8⟩ Module.unruly = .ok plan ∧
      plan.summary = ⟨3, 1, 1, 1⟩ ∧ plan.edits.length = 8 ∧ (plan.edits.map Edit.target).Nodup ∧
      Edit.Run Module.unruly plan.edits.reverse (plan.apply Module.unruly) := by
  have hplan : Plan.make Module.unrulyTables ⟨true, .int8⟩ Module.unruly =
    .ok (Plan.ofFindings (moduleFindings Module.unrulyTables ⟨true, .int8⟩ Module.unruly)) := rfl
  have hsummary : (Plan.ofFindings
    (moduleFindings Module.unrulyTables ⟨true, .int8⟩ Module.unruly)).summary = ⟨3, 1, 1, 1⟩ := rfl
  obtain ⟨-, hn, hrun, -, hlength, -⟩ := Plan.edits_independent hplan
  rw [hsummary] at hlength
  exact ⟨⟨_, rfl⟩, _, hplan, hsummary, hlength, hn, hrun _ (List.reverse_perm _)⟩

end Calibration
