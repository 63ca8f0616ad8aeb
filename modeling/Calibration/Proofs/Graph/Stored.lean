import Calibration.Graph.Codec
import Calibration.Proofs.Json.Fields

/-! # Stored graphs

A graph whose floats are finite is loaded from its text as it was, but for empty arrays of floats. Their
text does not tell them from empty arrays of integers, which then stand in their place.
-/
namespace Calibration
open Json

namespace Attribute

def allFloats : Attribute → List Float
  | .float x => [x]
  | .floats xs => xs
  | _ => []

def asStored : Attribute → Attribute
  | .floats [] => .ints []
  | a => a

theorem asStored_of_ne {a : Attribute} (h : a ≠ .floats []) : a.asStored = a := by
  unfold asStored
  split
  · exact absurd rfl h
  · rfl

/-- Every reading but that as integers is the same for the empty arrays. -/
theorem asStored_readings (a : Attribute) :
    a.asStored.asBool? = a.asBool? ∧ a.asStored.asFloat? = a.asFloat? ∧
      a.asStored.asInt? = a.asInt? ∧ a.asStored.asFloats? = a.asFloats? := by
  by_cases h : a = .floats []
  · subst h
    exact ⟨rfl, rfl, rfl, rfl⟩
  · rw [asStored_of_ne h]
    exact ⟨rfl, rfl, rfl, rfl⟩

theorem ofJson?_toJson {a : Attribute} (h : ∀ x ∈ a.allFloats, x.isFinite = true) :
    ofJson? a.toJson = some a.asStored := by
  cases a with
  | bool b => rfl
  | int n => simp [ofJson?, toJson, toBool?, toInt64?_toInt, asStored]
  | float x =>
    have hx : toFloat? (.float x) = some x := toFloat?_float (h x List.mem_cons_self)
    simp [ofJson?, toJson, toBool?, toInt64?, hx, asStored]
  | ints ns =>
    have hns : toList? toInt64? (.arr (ns.map fun n => .int n.toInt)) = some ns :=
      toList?_map_self fun n _ => toInt64?_toInt n
    simp [ofJson?, toJson, toBool?, toInt64?, toFloat?, hns, asStored]
  | floats xs =>
    cases xs with
    | nil => rfl
    | cons x xs =>
      have hints : toList? toInt64? (.arr ((x :: xs).map .float)) = none := by
        rw [List.map_cons, toList?, List.mapM_cons]
        rfl
      have hfloats : toList? toFloat? (.arr ((x :: xs).map .float)) = some (x :: xs) :=
        toList?_map_self fun y hy => toFloat?_float (h y hy)
      simp only [ofJson?, toJson, hints, hfloats]
      rfl
  | str s => rfl

theorem storable_toJson {a : Attribute} (h : ∀ x ∈ a.allFloats, x.isFinite = true) :
    Storable a.toJson := by
  cases a with
  | bool b => exact .bool b
  | int n => exact .ofInt64 n
  | float x => exact .float (h x List.mem_cons_self)
  | ints ns => exact .array fun n _ => .ofInt64 n
  | floats xs => exact .array fun x hx => .float (h x hx)
  | str s => exact .text s

end Attribute

theorem State.ofJson?_toJson (s : State) : ofJson? s.toJson = some s := by cases s <;> rfl

theorem OpKind.ofJson?_toJson (kind : OpKind) : ofJson? kind.toJson = some kind := by
  cases kind <;> rfl

theorem OpKind.storable_toJson (kind : OpKind) : Storable kind.toJson := by
  cases kind with
  | inferable | plumbing =>
    refine .object fun m hm => ?_
    cases List.mem_singleton.1 hm
    exact .text _
  | _ => exact .text _

theorem Storage.ofJson?_toJson (s : Storage) : ofJson? s.toJson = some s := by cases s <;> rfl

namespace Affine

theorem ofJson?_toJson {p : Affine} (h : p.scale.isFinite = true) : ofJson? p.toJson = some p := by
  have hfields : fields? ["scale", "zero_point", "qmin", "qmax"] p.toJson =
      some [some (.float p.scale), some (.int p.zeroPoint.toInt), some (.int p.grid.low.toInt),
        some (.int p.grid.high.toInt)] := rfl
  simp [ofJson?, hfields, required, toFloat?_float h, toInt64?_toInt]

theorem storable_toJson {p : Affine} (h : p.scale.isFinite = true) : Storable p.toJson := by
  refine .object ?_
  simp [Storable.float h, Storable.ofInt64]

end Affine

namespace CalibratedType

def allFloats (t : CalibratedType) : List Float :=
  t.min :: t.max :: (t.params.map Affine.scale).toList

variable {t : CalibratedType} (h : ∀ x ∈ t.allFloats, x.isFinite = true)
include h

theorem ofJson?_toJson : ofJson? t.toJson = some t := by
  obtain ⟨storage, min, max, params⟩ := t
  have hmin : toFloat? (.float min) = some min := toFloat?_float (h min (by simp [allFloats]))
  have hmax : toFloat? (.float max) = some max := toFloat?_float (h max (by simp [allFloats]))
  cases params with
  | none =>
    have hfields : fields? ["element", "min", "max", "params"] (toJson ⟨storage, min, max, none⟩) =
        some [some storage.toJson, some (.float min), some (.float max), none] := rfl
    simp [ofJson?, hfields, required, withDefault, hmin, hmax, storage.ofJson?_toJson]
  | some p =>
    have hfields : fields? ["element", "min", "max", "params"] (toJson ⟨storage, min, max, some p⟩) =
        some [some storage.toJson, some (.float min), some (.float max), some p.toJson] := rfl
    have hp : paramsOfJson? p.toJson = some (some p) := by
      change (Affine.ofJson? p.toJson).map some = _
      rw [Affine.ofJson?_toJson (h p.scale (by simp [allFloats]))]
      rfl
    simp [ofJson?, hfields, required, withDefault, hmin, hmax, hp, storage.ofJson?_toJson]

theorem storable_toJson : Storable t.toJson := by
  have hstorage : Storable t.storage.toJson := .text _
  have hmin : Storable (.float t.min) := .float (h t.min (by simp [allFloats]))
  have hmax : Storable (.float t.max) := .float (h t.max (by simp [allFloats]))
  refine .object ?_
  cases hp : t.params with
  | none => simp [hstorage, hmin, hmax]
  | some p =>
    have hp : Storable p.toJson := Affine.storable_toJson (h p.scale (by simp [allFloats, hp]))
    simp [hstorage, hmin, hmax, hp]

end CalibratedType

namespace ElementType

def allFloats : ElementType → List Float
  | .calibrated t => t.allFloats
  | _ => []

variable {e : ElementType} (h : ∀ x ∈ e.allFloats, x.isFinite = true)
include h

theorem ofJson?_toJson : ofJson? e.toJson = some e := by
  cases e with
  | calibrated t =>
    change (CalibratedType.ofJson? t.toJson).map ElementType.calibrated = _
    rw [CalibratedType.ofJson?_toJson h]
    rfl
  | _ => rfl

theorem storable_toJson : Storable e.toJson := by
  cases e with
  | calibrated t =>
    refine .object fun m hm => ?_
    cases List.mem_singleton.1 hm
    exact CalibratedType.storable_toJson h
  | _ => exact .text _

end ElementType

namespace TensorType
variable {t : TensorType} (h : ∀ x ∈ t.element.allFloats, x.isFinite = true)
include h

theorem ofJson?_toJson : ofJson? t.toJson = some t := by
  have hfields : fields? ["shape", "element"] t.toJson =
      some [some (.arr (t.shape.map fun dim => .int dim.toInt)), some t.element.toJson] := rfl
  have hshape : toList? toInt64? (.arr (t.shape.map fun dim => .int dim.toInt)) = some t.shape :=
    toList?_map_self fun dim _ => toInt64?_toInt dim
  simp [ofJson?, hfields, required, hshape, ElementType.ofJson?_toJson h]

theorem storable_toJson : Storable t.toJson := by
  have hshape : Storable (.arr (t.shape.map fun dim => .int dim.toInt)) :=
    .array fun dim _ => .ofInt64 dim
  refine .object ?_
  simp [hshape, ElementType.storable_toJson h]

end TensorType

namespace ValueType

def allFloats : ValueType → List Float
  | .none => []
  | .tensor t => t.element.allFloats

variable {type : ValueType} (h : ∀ x ∈ type.allFloats, x.isFinite = true)
include h

theorem ofJson?_toJson : ofJson? type.toJson = some type := by
  cases type with
  | none => rfl
  | tensor t =>
    change (TensorType.ofJson? t.toJson).map ValueType.tensor = _
    rw [TensorType.ofJson?_toJson h]
    rfl

theorem storable_toJson : Storable type.toJson := by
  cases type with
  | none => exact .text _
  | tensor t =>
    refine .object fun m hm => ?_
    cases List.mem_singleton.1 hm
    exact TensorType.storable_toJson h

end ValueType

namespace Value
variable {v : Value} (h : ∀ x ∈ v.type.allFloats, x.isFinite = true)
include h

theorem ofJson?_toJson : ofJson? v.toJson = some v := by
  have hfields : fields? ["name", "ty"] v.toJson =
      some [some (.text v.name), some v.type.toJson] := rfl
  have hname : toText? (.text v.name) = some v.name := rfl
  simp [ofJson?, hfields, required, hname, ValueType.ofJson?_toJson h]

theorem storable_toJson : Storable v.toJson := by
  have hname : Storable (.text v.name) := .text v.name
  refine .object ?_
  simp [hname, ValueType.storable_toJson h]

end Value

theorem toList?_namesToJson (names : List String) : toList? toText? (namesToJson names) = some names :=
  toList?_map_self fun _ _ => rfl

theorem storable_namesToJson (names : List String) : Storable (namesToJson names) :=
  .array fun name _ => .text name

namespace Operation

def attributes (op : Operation) : List Attribute := op.attrs.entries.map Prod.snd

def allFloats (op : Operation) : List Float :=
  (op.results.flatMap fun v => v.type.allFloats) ++ op.attributes.flatMap Attribute.allFloats

def asStored (op : Operation) : Operation := { op with attrs := op.attrs.mapValues Attribute.asStored }

theorem asStored_eq_self {op : Operation} (h : .floats [] ∉ op.attributes) : op.asStored = op := by
  have hattrs : op.attrs.mapValues Attribute.asStored = op.attrs := by
    refine NameMap.mapValues_eq_self fun e he => Attribute.asStored_of_ne ?_
    intro hempty
    exact h (hempty ▸ List.mem_map_of_mem he)
  rw [asStored, hattrs]

variable {op : Operation} (h : ∀ x ∈ op.allFloats, x.isFinite = true)
include h

theorem isFinite_of_result {v : Value} (hv : v ∈ op.results) :
    ∀ x ∈ v.type.allFloats, x.isFinite = true :=
  fun x hx => h x (List.mem_append_left _ (List.mem_flatMap.2 ⟨v, hv, hx⟩))

theorem isFinite_of_attr {e : String × Attribute} (he : e ∈ op.attrs.entries) :
    ∀ x ∈ e.2.allFloats, x.isFinite = true :=
  fun x hx => h x (List.mem_append_right _ (List.mem_flatMap.2 ⟨e.2, List.mem_map_of_mem he, hx⟩))

theorem ofJson?_toJson : ofJson? op.toJson = some op.asStored := by
  have hresults : toList? Value.ofJson? (.arr (op.results.map Value.toJson)) = some op.results :=
    toList?_map_self fun v hv => Value.ofJson?_toJson (isFinite_of_result h hv)
  have hattrs : Attribute.mapOfJson? (Attribute.mapToJson op.attrs) =
      some (op.attrs.mapValues Attribute.asStored) :=
    toMap?_object fun e he => Attribute.ofJson?_toJson (isFinite_of_attr h he)
  have hfields : fields? ["kind", "operands", "results", "attrs"] op.toJson =
      some [some op.kind.toJson,
        if op.operands.isEmpty then none else some (namesToJson op.operands),
        some (.arr (op.results.map Value.toJson)),
        if op.attrs.isEmpty then none else some (Attribute.mapToJson op.attrs)] := by
    unfold toJson
    cases op.operands.isEmpty <;> cases op.attrs.isEmpty <;> rfl
  have hoperands : withDefault [] (toList? toText?)
      (if op.operands.isEmpty then none else some (namesToJson op.operands)) = some op.operands := by
    by_cases hempty : op.operands.isEmpty
    · rw [if_pos hempty, List.isEmpty_iff.1 hempty]
      rfl
    · rw [if_neg hempty]
      exact toList?_namesToJson op.operands
  have hstored : withDefault .empty Attribute.mapOfJson?
      (if op.attrs.isEmpty then none else some (Attribute.mapToJson op.attrs)) =
        some (op.attrs.mapValues Attribute.asStored) := by
    by_cases hempty : op.attrs.isEmpty
    · have hnone : op.attrs.entries = [] := List.isEmpty_iff.1 hempty
      rw [if_pos hempty]
      simp [withDefault, NameMap.mapValues, NameMap.empty, hnone]
    · rw [if_neg hempty]
      exact hattrs
  generalize (if op.operands.isEmpty then none else some (namesToJson op.operands)) = operands
    at hfields hoperands
  simp [ofJson?, hfields, required, hresults, hoperands, hstored, op.kind.ofJson?_toJson, asStored]

theorem storable_toJson : Storable op.toJson := by
  have hkind : Storable op.kind.toJson := op.kind.storable_toJson
  have hoperands : Storable (namesToJson op.operands) := storable_namesToJson op.operands
  have hresults : Storable (.arr (op.results.map Value.toJson)) :=
    .array fun v hv => Value.storable_toJson (isFinite_of_result h hv)
  have hattrs : Storable (Attribute.mapToJson op.attrs) := by
    refine .object fun m hm => ?_
    obtain ⟨e, he, rfl⟩ := List.mem_map.1 hm
    exact Attribute.storable_toJson (isFinite_of_attr h he)
  refine .object ?_
  cases op.operands.isEmpty <;> cases op.attrs.isEmpty <;> simp [hkind, hoperands, hresults, hattrs]

end Operation

namespace Function

def attributes (f : Function) : List Attribute := f.ops.flatMap Operation.attributes

def allFloats (f : Function) : List Float :=
  f.ops.flatMap Operation.allFloats ++ f.outputTypes.flatMap ValueType.allFloats

def asStored (f : Function) : Function := { f with ops := f.ops.map Operation.asStored }

theorem asStored_eq_self {f : Function} (h : .floats [] ∉ f.attributes) : f.asStored = f := by
  have hops : f.ops.map Operation.asStored = f.ops.map id :=
    List.map_congr_left fun op hop => Operation.asStored_eq_self fun hmem =>
      h (List.mem_flatMap.2 ⟨op, hop, hmem⟩)
  rw [asStored, hops, List.map_id]

variable {f : Function} (h : ∀ x ∈ f.allFloats, x.isFinite = true)
include h

theorem isFinite_of_op {op : Operation} (hop : op ∈ f.ops) : ∀ x ∈ op.allFloats, x.isFinite = true :=
  fun x hx => h x (List.mem_append_left _ (List.mem_flatMap.2 ⟨op, hop, hx⟩))

theorem isFinite_of_outputType {type : ValueType} (ht : type ∈ f.outputTypes) :
    ∀ x ∈ type.allFloats, x.isFinite = true :=
  fun x hx => h x (List.mem_append_right _ (List.mem_flatMap.2 ⟨type, ht, hx⟩))

theorem ofJson?_toJson : ofJson? f.toJson = some f.asStored := by
  have hfields : fields? ["name", "ops", "outputs", "output_types"] f.toJson =
      some [some (.text f.name), some (.arr (f.ops.map Operation.toJson)),
        some (namesToJson f.outputs), some (.arr (f.outputTypes.map ValueType.toJson))] := rfl
  have hname : toText? (.text f.name) = some f.name := rfl
  have hops : toList? Operation.ofJson? (.arr (f.ops.map Operation.toJson)) =
      some (f.ops.map Operation.asStored) :=
    toList?_map fun op hop => Operation.ofJson?_toJson (isFinite_of_op h hop)
  have htypes : toList? ValueType.ofJson? (.arr (f.outputTypes.map ValueType.toJson)) =
      some f.outputTypes :=
    toList?_map_self fun type ht => ValueType.ofJson?_toJson (isFinite_of_outputType h ht)
  simp [ofJson?, hfields, required, withDefault, hname, hops, toList?_namesToJson, htypes, asStored]

theorem storable_toJson : Storable f.toJson := by
  have hname : Storable (.text f.name) := .text f.name
  have hops : Storable (.arr (f.ops.map Operation.toJson)) :=
    .array fun op hop => Operation.storable_toJson (isFinite_of_op h hop)
  have htypes : Storable (.arr (f.outputTypes.map ValueType.toJson)) :=
    .array fun type ht => ValueType.storable_toJson (isFinite_of_outputType h ht)
  refine .object ?_
  simp [hname, hops, storable_namesToJson f.outputs, htypes]

end Function

namespace Module

def attributes (m : Module) : List Attribute := m.functions.flatMap Function.attributes

/-- All floats of a module: the ranges and scales of its types, and those in attributes. -/
def allFloats (m : Module) : List Float := m.functions.flatMap Function.allFloats

/-- The module with empty arrays of integers in place of those of floats. -/
def asStored (m : Module) : Module := { m with functions := m.functions.map Function.asStored }

theorem asStored_eq_self {m : Module} (h : .floats [] ∉ m.attributes) : m.asStored = m := by
  have hfunctions : m.functions.map Function.asStored = m.functions.map id :=
    List.map_congr_left fun f hf => Function.asStored_eq_self fun hmem =>
      h (List.mem_flatMap.2 ⟨f, hf, hmem⟩)
  rw [asStored, hfunctions, List.map_id]

variable {m : Module} (h : ∀ x ∈ m.allFloats, x.isFinite = true)
include h

theorem isFinite_of_function {f : Function} (hf : f ∈ m.functions) :
    ∀ x ∈ f.allFloats, x.isFinite = true :=
  fun x hx => h x (List.mem_flatMap.2 ⟨f, hf, hx⟩)

theorem ofJson?_toJson : ofJson? m.toJson = some m.asStored := by
  have hfields : fields? ["name", "state", "functions"] m.toJson =
      some [some (.text m.name), some m.state.toJson, some (.arr (m.functions.map Function.toJson))] :=
    rfl
  have hname : toText? (.text m.name) = some m.name := rfl
  have hfunctions : toList? Function.ofJson? (.arr (m.functions.map Function.toJson)) =
      some (m.functions.map Function.asStored) :=
    toList?_map fun f hf => Function.ofJson?_toJson (isFinite_of_function h hf)
  simp [ofJson?, hfields, required, hname, hfunctions, m.state.ofJson?_toJson, asStored]

theorem storable_toJson : Storable m.toJson := by
  have hname : Storable (.text m.name) := .text m.name
  have hstate : Storable m.state.toJson := .text _
  have hfunctions : Storable (.arr (m.functions.map Function.toJson)) :=
    .array fun f hf => Function.storable_toJson (isFinite_of_function h hf)
  refine .object ?_
  simp [hname, hstate, hfunctions]

/-- A module is loaded from its text, behind which blanks may stand. -/
theorem ofText?_toText_append {blanks : String}
    (hblanks : ∀ c ∈ blanks.toList, Json.Token.isSpace c = true) :
    ofText? (m.toText ++ blanks) = some m.asStored := by
  rw [ofText?, toText, (storable_toJson h).read?_pretty hblanks]
  exact ofJson?_toJson h

end Module
end Calibration
