import Calibration.Proofs.Graph.WellFormed
import Calibration.Proofs.Plan.Boundaries

/-! # One function at a time

Places tell functions apart, names are found within a function, and counts are added up. So each function of a
module is calibrated as if there were no other, and the first that stops a calibration by itself stops that of
the module.
-/
namespace Calibration

namespace Summary

theorem zero_add (a : Summary) : zero.add a = a := by simp [add, zero]

theorem add_assoc (a b c : Summary) : (a.add b).add c = a.add (b.add c) := by
  simp only [add, Nat.add_assoc]

theorem add_left_comm (a b c : Summary) : a.add (b.add c) = b.add (a.add c) := by
  simp only [add, Nat.add_left_comm]

theorem sum_append (xs ys : List Summary) : sum (xs ++ ys) = (sum xs).add (sum ys) := by
  induction xs with
  | nil => exact (zero_add _).symm
  | cons x xs ih =>
    have hcons (zs : List Summary) : sum (x :: zs) = x.add (sum zs) := rfl
    rw [List.cons_append, hcons, hcons, ih, add_assoc]

theorem sum_flatMap {α : Type} (xs : List α) (k : α → List Summary) :
    sum (xs.flatMap k) = sum (xs.map fun x => sum (k x)) := by
  induction xs with
  | nil => rfl
  | cons x xs ih =>
    rw [List.flatMap_cons, sum_append, ih]
    rfl

theorem sum_of_perm {xs ys : List Summary} (h : xs.Perm ys) : sum xs = sum ys := by
  induction h with
  | nil => rfl
  | cons x _ ih => exact congrArg x.add ih
  | swap x y xs => exact add_left_comm y x (sum xs)
  | trans _ _ ih₁ ih₂ => exact ih₁.trans ih₂

end Summary

variable (tables : Tables) (settings : Settings)

namespace Function

def findings (f : Function) : List Finding := f.ops.flatMap (opFindings tables settings f)

def stop? (f : Function) : Option (Stop CalibrationError) :=
  (f.findings tables settings).findSome? Finding.stop?

def summary (f : Function) : Summary := .sum ((f.findings tables settings).map Finding.summary)

def alone (f : Function) (name : String) : Module := ⟨name, .topF32, [f]⟩

end Function

def Module.arranged (m : Module) (order : List Nat) : Module :=
  { m with functions := order.filterMap fun i => m.functions[i]? }

theorem moduleFindings_finding (m : Module) :
    (moduleFindings tables settings m).map Located.finding =
      m.functions.flatMap (Function.findings tables settings) := by
  have hfunction (f : Function) (i : Nat) :
      (functionFindings tables settings i f).map Located.finding = f.findings tables settings := by
    simp only [functionFindings, List.map_flatMap, List.map_map, Function.comp_def, List.map_id']
    exact flatMap_zipIdx_fst f.ops _
  simp only [moduleFindings, List.map_flatMap, hfunction]
  exact flatMap_zipIdx_fst m.functions _

variable {tables settings} {m : Module}

theorem findSome?_moduleFindings_eq (m : Module) :
    (moduleFindings tables settings m).findSome? Located.stop? =
      m.functions.findSome? (Function.stop? tables settings) := by
  have hstops := congrArg (List.findSome? Finding.stop?)
    (moduleFindings_finding tables settings m)
  rw [List.findSome?_map, findSome?_flatMap] at hstops
  exact hstops

/-- Counts are those of the functions, summed up. -/
theorem summary_ofFindings (m : Module) :
    (Plan.ofFindings (moduleFindings tables settings m)).summary =
      .sum (m.functions.map (Function.summary tables settings)) := by
  have hsummaries := congrArg (fun xs => Summary.sum (xs.map Finding.summary))
    (moduleFindings_finding tables settings m)
  simp only [List.map_map, List.map_flatMap, Summary.sum_flatMap] at hsummaries
  exact hsummaries

namespace Module

section Annotate
variable (hs : m.state = .topF32) (hv : m.validate = .ok ())
include hs hv

theorem annotate_of_stop? {stop : Stop CalibrationError}
    (h : m.functions.findSome? (Function.stop? tables settings) = some stop) :
    m.annotate tables settings = (m, .error stop) :=
  annotate_of_stop hs hv ((findSome?_moduleFindings_eq m).trans h)

theorem annotate_of_stop?_eq_none (h : ∀ f ∈ m.functions, f.stop? tables settings = none) :
    m.annotate tables settings =
      (⟨m.name, .topCalibrated, calibratedFunctions tables settings m.functions⟩,
        .ok (.sum (m.functions.map (Function.summary tables settings)))) := by
  have hnone : (moduleFindings tables settings m).findSome? Located.stop? = none :=
    (findSome?_moduleFindings_eq m).trans (List.findSome?_eq_none_iff.2 h)
  obtain ⟨plan, m', hplan⟩ := exists_calibratedBy_of_findSome? hs hv hnone
  rw [hplan.run, hplan.result_eq, hplan.plan_eq, summary_ofFindings]

theorem annotate_snd_eq_error_iff {stop : Stop CalibrationError} :
    (m.annotate tables settings).2 = .error stop ↔
      m.functions.findSome? (Function.stop? tables settings) = some stop := by
  cases h : m.functions.findSome? (Function.stop? tables settings) with
  | none => simp [annotate_of_stop?_eq_none hs hv (List.findSome?_eq_none_iff.1 h)]
  | some stop' => simp [annotate_of_stop? hs hv h]

theorem exists_annotate_snd_eq_ok_iff :
    (∃ s, (m.annotate tables settings).2 = .ok s) ↔
      ∀ f ∈ m.functions, f.stop? tables settings = none := by
  rw [← List.findSome?_eq_none_iff]
  cases h : m.functions.findSome? (Function.stop? tables settings) with
  | none => simp [annotate_of_stop?_eq_none hs hv (List.findSome?_eq_none_iff.1 h)]
  | some stop => simp [annotate_of_stop? hs hv h]

end Annotate

theorem validate_alone (hv : m.validate = .ok ()) {f : Function} (hf : f ∈ m.functions) (name : String) :
    (f.alone name).validate = .ok () :=
  validate_of_sublist (List.singleton_sublist.2 hf) hv

/-- A function that does not stop a calibration is calibrated by itself to what becomes of it in a module. -/
theorem annotate_alone (hv : m.validate = .ok ()) {f : Function} (hf : f ∈ m.functions) (name : String)
    (h : f.stop? tables settings = none) : (f.alone name).annotate tables settings =
      (⟨name, .topCalibrated, [(f.calibrated tables settings).refreshed]⟩,
        .ok (f.summary tables settings)) :=
  annotate_of_stop?_eq_none rfl (validate_alone hv hf name) fun g hg => by
    rw [List.mem_singleton.1 hg, h]

theorem exists_annotate_alone_iff (hv : m.validate = .ok ()) {f : Function} (hf : f ∈ m.functions)
    (name : String) : (∃ s, ((f.alone name).annotate tables settings).2 = .ok s) ↔
      f.stop? tables settings = none := by
  rw [exists_annotate_snd_eq_ok_iff rfl (validate_alone hv hf name)]
  exact List.forall_mem_singleton

/-- On its own a function fails as its findings say. -/
theorem annotate_alone_eq_error_iff (hv : m.validate = .ok ()) {f : Function} (hf : f ∈ m.functions)
    (name : String) {stop : Stop CalibrationError} :
    ((f.alone name).annotate tables settings).2 = .error stop ↔ f.stop? tables settings = some stop := by
  rw [annotate_snd_eq_error_iff rfl (validate_alone hv hf name)]
  cases h : f.stop? tables settings <;> simp [Function.alone, h]

section Arranged
variable {order : List Nat}

theorem arranged_calibratedFunctions :
    (⟨m.name, .topCalibrated, calibratedFunctions tables settings m.functions⟩ : Module).arranged order =
      ⟨m.name, .topCalibrated, calibratedFunctions tables settings (m.arranged order).functions⟩ := by
  simp only [arranged, calibratedFunctions, List.getElem?_map, List.map_filterMap]

theorem arranged_perm (h : order.Perm (List.range m.functions.length)) :
    (m.arranged order).functions.Perm m.functions := by
  have hfunctions := h.filterMap fun i => m.functions[i]?
  rwa [filterMap_getElem?_range] at hfunctions

end Arranged

/-- A well-formed float graph is calibrated function by function: it succeeds if each function does by itself,
with the functions and the counts that they have then, and otherwise it fails as the first of them that does.
So functions in another order are calibrated to the same functions in that order. -/
theorem functions_calibrated_independently (hs : m.state = .topF32) (hv : m.validate = .ok ())
    (tables : Tables) (settings : Settings) (name : String) :
    ((∃ s, (m.annotate tables settings).2 = .ok s) ↔
      ∀ f ∈ m.functions, ∃ s, ((f.alone name).annotate tables settings).2 = .ok s) ∧
    (∀ m' s, m.annotate tables settings = (m', .ok s) → m'.name = m.name ∧ m'.state = .topCalibrated ∧
      ∃ parts : List (Function × Summary), List.Forall₂ (fun f part =>
          (f.alone name).annotate tables settings = (⟨name, .topCalibrated, [part.1]⟩, .ok part.2))
          m.functions parts ∧
        m'.functions = parts.map Prod.fst ∧ s = .sum (parts.map Prod.snd)) ∧
    (∀ stop, (m.annotate tables settings).2 = .error stop ↔ ∃ before f after,
      m.functions = before ++ f :: after ∧
      (∀ g ∈ before, ∃ s, ((g.alone name).annotate tables settings).2 = .ok s) ∧
      ((f.alone name).annotate tables settings).2 = .error stop) ∧
    ∀ order : List Nat, order.Perm (List.range m.functions.length) →
      (m.arranged order).validate = .ok () ∧
      (∀ m' s, m.annotate tables settings = (m', .ok s) →
        (m.arranged order).annotate tables settings = (m'.arranged order, .ok s)) ∧
      ((∃ s, ((m.arranged order).annotate tables settings).2 = .ok s) ↔
        ∃ s, (m.annotate tables settings).2 = .ok s) := by
  refine ⟨?_, ?_, ?_, ?_⟩
  · rw [exists_annotate_snd_eq_ok_iff hs hv]
    exact forall₂_congr fun f hf => (exists_annotate_alone_iff hv hf name).symm
  · intro m' s h
    have hnone := (exists_annotate_snd_eq_ok_iff hs hv).1 ⟨s, congrArg Prod.snd h⟩
    rw [annotate_of_stop?_eq_none hs hv hnone] at h
    cases h
    refine ⟨rfl, rfl, m.functions.map fun f => ((f.calibrated tables settings).refreshed,
      f.summary tables settings), ?_, ?_, ?_⟩
    · rw [List.forall₂_map_right_iff, List.forall₂_same]
      exact fun f hf => annotate_alone hv hf name (hnone f hf)
    · rw [List.map_map]
      rfl
    · rw [List.map_map]
      rfl
  · intro stop
    rw [annotate_snd_eq_error_iff hs hv, List.findSome?_eq_some_iff]
    refine exists_congr fun before => exists_congr fun f => exists_congr fun after =>
      and_congr_right fun hsplit => ?_
    have hf : f ∈ m.functions := by simp [hsplit]
    have hbefore : ∀ g ∈ before, g ∈ m.functions := by
      intro g hg
      rw [hsplit]
      exact List.mem_append_left _ hg
    rw [annotate_alone_eq_error_iff hv hf, and_comm]
    exact and_congr_left' (forall₂_congr fun g hg =>
      (exists_annotate_alone_iff hv (hbefore g hg) name).symm)
  · intro order horder
    have hperm := arranged_perm horder
    have hstate : (m.arranged order).state = .topF32 := hs
    have hvalid := validate_of_perm hperm hv
    refine ⟨hvalid, fun m' s h => ?_, ?_⟩
    · have hnone := (exists_annotate_snd_eq_ok_iff hs hv).1 ⟨s, congrArg Prod.snd h⟩
      rw [annotate_of_stop?_eq_none hs hv hnone] at h
      cases h
      rw [annotate_of_stop?_eq_none hstate hvalid fun f hf => hnone f (hperm.mem_iff.1 hf),
        Summary.sum_of_perm (hperm.map _), arranged_calibratedFunctions]
      rfl
    · rw [exists_annotate_snd_eq_ok_iff hs hv, exists_annotate_snd_eq_ok_iff hstate hvalid]
      exact forall_congr' fun f => imp_congr_left hperm.mem_iff

def magnitude : Function :=
  { name := "magnitude"
    ops := [crossingOp .input [] "u", crossingOp .abs ["u"] "v"]
    outputs := ["v"]
    outputTypes := [] }

def crossingPair : Module := ⟨"net", .topF32, [crossingMain, magnitude]⟩

def pairTables : Tables := (crossingTables.insertDefault "u" ⟨1, -1, 1⟩).insertDefault "v" ⟨1, 0, 1⟩

/-- Without records for the second function it fails by itself and with the first, which does not. -/
theorem functions_calibrated_independently_pair :
    crossingPair.state = .topF32 ∧ crossingPair.validate = .ok () ∧
    (∃ m', crossingPair.annotate pairTables ⟨true, .int8⟩ = (m', .ok ⟨8, 0, 1, 2⟩) ∧
      (crossingPair.arranged [1, 0]).annotate pairTables ⟨true, .int8⟩ =
        (m'.arranged [1, 0], .ok ⟨8, 0, 1, 2⟩) ∧
      ∃ parts : List (Function × Summary), m'.functions = parts.map Prod.fst ∧
        List.Forall₂ (fun f part => (f.alone "f").annotate pairTables ⟨true, .int8⟩ =
          (⟨"f", .topCalibrated, [part.1]⟩, .ok part.2)) crossingPair.functions parts ∧
        ⟨8, 0, 1, 2⟩ = Summary.sum (parts.map Prod.snd)) ∧
    (crossingPair.annotate crossingTables ⟨true, .int8⟩).2 =
      .error (.reported (.missingRecord "u" .input)) ∧
    ∃ before f after, crossingPair.functions = before ++ f :: after ∧
      (∀ g ∈ before, ∃ s, ((g.alone "f").annotate crossingTables ⟨true, .int8⟩).2 = .ok s) ∧
      ((f.alone "f").annotate crossingTables ⟨true, .int8⟩).2 =
        .error (.reported (.missingRecord "u" .input)) := by
  have hv : crossingPair.validate = .ok () := rfl
  have hrun : crossingPair.annotate pairTables ⟨true, .int8⟩ =
      ((crossingPair.annotate pairTables ⟨true, .int8⟩).1, .ok ⟨8, 0, 1, 2⟩) :=
    run_eq_of_snd (by decide +kernel)
  have hfail : (crossingPair.annotate crossingTables ⟨true, .int8⟩).2 =
      .error (.reported (.missingRecord "u" .input)) := by
    decide +kernel
  obtain ⟨-, hdone, -, harranged⟩ :=
    functions_calibrated_independently rfl hv pairTables ⟨true, .int8⟩ "f"
  obtain ⟨-, -, parts, hparts, hfunctions, hsum⟩ := hdone _ _ hrun
  obtain ⟨-, -, herror, -⟩ :=
    functions_calibrated_independently rfl hv crossingTables ⟨true, .int8⟩ "f"
  exact ⟨rfl, hv, ⟨_, hrun, (harranged [1, 0] (List.Perm.swap 0 1 [])).2.1 _ _ hrun, parts, hfunctions,
    hparts, hsum⟩, hfail, (herror _).1 hfail⟩

end Module
end Calibration
