import Calibration.Graph.Signature
import Calibration.Proofs.Graph.WellFormed
import Calibration.Proofs.IndexedWalk
import Mathlib.Data.List.Forall2

/-! # Functions whose outputs are defined

A well-formed module names as outputs only results of the same function. That is all a refresh needs, and
no edit of an operation takes it away, as long as the names of the results stay.
-/
namespace Calibration

namespace Function

def OutputsDefined (f : Function) : Prop := ∀ x ∈ f.outputs, x ∈ f.values.map Value.name

theorem undefinedOutput?_eq_none_iff {f : Function} : f.undefinedOutput? = none ↔ f.OutputsDefined := by
  simp [undefinedOutput?, OutputsDefined]

theorem outputsDefined_of_fault?_eq_none {f : Function} (h : f.fault? = none) :
    f.OutputsDefined := by
  unfold fault? at h
  cases ho : undefinedOperand? [] f.ops with
  | some p => simp [ho] at h
  | none => exact undefinedOutput?_eq_none_iff.1 (by simpa [ho] using h)

theorem exists_value? {f : Function} {x : String} (h : x ∈ f.values.map Value.name) :
    ∃ v, f.value? x = some v := by
  obtain ⟨v, hv, hx⟩ := List.mem_map.1 h
  exact Option.isSome_iff_exists.1 (List.find?_isSome.2 ⟨v, hv, by simpa using hx⟩)

theorem typesOf_eq_ok_iff {f : Function} {names : List String} {types : List ValueType} :
    f.typesOf names = .ok types ↔
      List.Forall₂ (fun x type => ∃ v, f.value? x = some v ∧ v.type = type) names types := by
  induction names generalizing types with
  | nil => simp [typesOf, eq_comm]
  | cons x names ih =>
    rw [typesOf, List.forall₂_cons_left_iff]
    cases hv : f.value? x with
    | none => simp
    | some v =>
      simp only [Option.some.injEq, exists_eq_left', ← ih]
      cases f.typesOf names with
      | error e => simp [Except.map]
      | ok rest => simp [Except.map, eq_comm]

theorem refresh_eq_ok_iff {f f' : Function} :
    f.refresh = .ok f' ↔
      ∃ types, f.typesOf f.outputs = .ok types ∧ f' = { f with outputTypes := types } := by
  unfold refresh
  cases f.typesOf f.outputs <;> simp [Except.map, eq_comm]

/-- A function that a refresh leaves alone has the types of its outputs. -/
theorem outputTypes_of_refresh {f : Function} (h : f.refresh = .ok f) :
    List.Forall₂ (fun x type => ∃ v, f.value? x = some v ∧ v.type = type) f.outputs f.outputTypes := by
  obtain ⟨types, htypes, hf⟩ := refresh_eq_ok_iff.1 h
  have heq : f.outputTypes = types := congrArg outputTypes hf
  rw [heq]
  exact typesOf_eq_ok_iff.1 htypes

def refreshed (f : Function) : Function :=
  { f with outputTypes := f.outputs.filterMap fun x => (f.value? x).map Value.type }

theorem OutputsDefined.refresh_eq {f : Function} (h : f.OutputsDefined) :
    f.refresh = .ok f.refreshed := by
  have htypes (names : List String) (hn : ∀ x ∈ names, x ∈ f.values.map Value.name) :
      f.typesOf names = .ok (names.filterMap fun x => (f.value? x).map Value.type) := by
    induction names with
    | nil => rfl
    | cons x names ih =>
      obtain ⟨hx, hnames⟩ := List.forall_mem_cons.1 hn
      obtain ⟨v, hv⟩ := exists_value? hx
      rw [typesOf, hv, ih hnames, List.filterMap_cons, hv]
      rfl
  rw [refresh, htypes f.outputs h]
  rfl

theorem OutputsDefined.modifyOp {f : Function} (h : f.OutputsDefined) (i : Nat)
    {g : Operation → Operation}
    (hg : ∀ op, (g op).results.map Value.name = op.results.map Value.name) :
    (f.modifyOp i g).OutputsDefined := by
  have hvalues : (f.modifyOp i g).values.map Value.name = f.values.map Value.name := by
    simp only [Function.modifyOp, values, List.map_flatMap]
    rw [List.flatMap_def, map_modify_of_eq hg, ← List.flatMap_def]
  intro x hx
  exact hvalues ▸ h x hx

end Function

theorem refreshFunctions_eq_map {fs : List Function} (h : ∀ f ∈ fs, f.OutputsDefined) :
    refreshFunctions fs = (fs.map Function.refreshed, .ok ()) := by
  induction fs with
  | nil => rfl
  | cons f fs ih =>
    obtain ⟨hf, hfs⟩ := List.forall_mem_cons.1 h
    rw [refreshFunctions, hf.refresh_eq]
    simp only [ih hfs, List.map_cons]

/-- A refresh touches no operation, not even one that fails. -/
theorem refreshFunctions_ops (fs : List Function) :
    (refreshFunctions fs).1.map Function.ops = fs.map Function.ops := by
  induction fs with
  | nil => rfl
  | cons f fs ih =>
    rw [refreshFunctions]
    cases hr : f.refresh with
    | error e => rfl
    | ok f' =>
      have hops : f'.ops = f.ops := by
        obtain ⟨types, -, rfl⟩ := Function.refresh_eq_ok_iff.1 hr
        rfl
      simp [hops, ih]

namespace Module

def OutputsDefined (m : Module) : Prop := ∀ f ∈ m.functions, f.OutputsDefined

theorem outputsDefined_of_validate {m : Module} (h : m.validate = .ok ()) : m.OutputsDefined :=
  fun f hf => Function.outputsDefined_of_fault?_eq_none ((validate_eq_ok_iff.1 h).2 f hf)

theorem OutputsDefined.refresh {m : Module} (h : m.OutputsDefined) : m.refresh.2 = .ok () := by
  rw [Module.refresh, refreshFunctions_eq_map h]

theorem OutputsDefined.modifyFunction {m : Module} (h : m.OutputsDefined) (i : Nat)
    {g : Function → Function} (hg : ∀ f : Function, f.OutputsDefined → (g f).OutputsDefined) :
    (m.modifyFunction i g).OutputsDefined :=
  forall_mem_modify hg h i

end Module
end Calibration
