import Calibration.Proofs.Plan.Edits

/-! # Two calibrations of one module

A module is calibrated twice, with other tables or with other settings. The two are compared finding by
finding: where the findings for every operation stop for the same reason, count the same and make edits that
look the same, the two calibrations fail alike or succeed alike. How closely edits are looked at is left open.
Where some ranges have maps in one of them only, what stops them is compared offender by offender, and one of the
two may be broken off.
-/
namespace Calibration

section Related
variable (R : Operation → Operation → Prop)

/-- Functions that differ in their operations, as `R` allows. The output types of each are those of its own
values. -/
structure Function.Related (f f' : Function) : Prop where
  name : f.name = f'.name
  ops : List.Forall₂ R f.ops f'.ops
  outputs : f.outputs = f'.outputs
  outputTypes : f.refresh = .ok f ∧ f'.refresh = .ok f'

structure Module.Related (m m' : Module) : Prop where
  name : m.name = m'.name
  state : m.state = m'.state
  functions : List.Forall₂ (Function.Related R) m.functions m'.functions

end Related

/-- One list mapped in two ways. -/
theorem forall₂_map_map {α β γ : Type} {R : β → γ → Prop} {k : α → β} {k' : α → γ} {xs : List α}
    (h : ∀ a ∈ xs, R (k a) (k' a)) : List.Forall₂ R (xs.map k) (xs.map k') :=
  List.forall₂_map_left_iff.2 (List.forall₂_map_right_iff.2 (List.forall₂_same.2 h))

variable {γ : Type} (g : Edit → γ)

/-- What a finding does at a place, with its edits as they appear through `g`. -/
def Finding.viewed (i j : Nat) (x : Finding) : Option (Stop CalibrationError) × Summary × List γ :=
  (x.stop?, x.summary, (x.edits i j).map g)

/-- Whatever is found for an operation of `m` looks the same with both tables and settings. -/
def Module.Alike (m : Module) (tables tables' : Tables) (settings settings' : Settings) : Prop :=
  ∀ f ∈ m.functions, ∀ op ∈ f.ops, ∀ i j,
    (opFindings tables settings f op).map (Finding.viewed g i j) =
      (opFindings tables' settings' f op).map (Finding.viewed g i j)

variable {g} {tables tables' : Tables} {settings settings' : Settings} {m : Module}

namespace Module

theorem Alike.moduleFindings (h : m.Alike g tables tables' settings settings') :
    (moduleFindings tables settings m).map (fun l => l.finding.viewed g l.function l.op) =
      (Calibration.moduleFindings tables' settings' m).map
        fun l => l.finding.viewed g l.function l.op := by
  simp only [Calibration.moduleFindings, functionFindings, List.map_flatMap, List.map_map]
  refine List.flatMap_congr fun p hp => List.flatMap_congr fun q hq => ?_
  exact h p.1 (List.fst_mem_of_mem_zipIdx hp) q.1 (List.fst_mem_of_mem_zipIdx hq) p.2 q.2

theorem Alike.findSome?_eq (h : m.Alike g tables tables' settings settings') :
    (Calibration.moduleFindings tables settings m).findSome? Located.stop? =
      (Calibration.moduleFindings tables' settings' m).findSome? Located.stop? := by
  have hstops := congrArg (List.findSome? Prod.fst) h.moduleFindings
  simp only [List.findSome?_map] at hstops
  exact hstops

theorem Alike.summary_eq (h : m.Alike g tables tables' settings settings') :
    (Plan.ofFindings (Calibration.moduleFindings tables settings m)).summary =
      (Plan.ofFindings (Calibration.moduleFindings tables' settings' m)).summary := by
  have hsummaries := congrArg (List.map fun x => x.2.1) h.moduleFindings
  simp only [List.map_map] at hsummaries
  exact congrArg Summary.sum hsummaries

theorem Alike.edits_eq (h : m.Alike g tables tables' settings settings') :
    (Plan.ofFindings (Calibration.moduleFindings tables settings m)).edits.map g =
      (Plan.ofFindings (Calibration.moduleFindings tables' settings' m)).edits.map g := by
  have hedits := congrArg (List.flatMap fun x => x.2.2) h.moduleFindings
  simp only [List.flatMap_map] at hedits
  simp only [Plan.ofFindings, List.map_flatMap]
  exact hedits

/-- A module that is not a well-formed float graph fails alike with all tables and settings. -/
theorem annotate_cases (m : Module) :
    (∃ e, ∀ tables settings, m.annotate tables settings = (m, .error (.reported e))) ∨
      m.state = .topF32 ∧ m.validate = .ok () := by
  cases hs : m.checkState with
  | error e => exact .inl ⟨e, fun _ _ => by simp only [annotate, hs]⟩
  | ok u =>
    cases hv : m.validate with
    | error e => exact .inl ⟨.graph e, fun _ _ => by simp only [annotate, hs, hv]⟩
    | ok u => exact .inr ⟨checkState_eq_ok_iff.1 hs, rfl⟩

/-- Only a reason to stop makes the one calibration fail and not the other. -/
theorem annotate_of_findSome?_eq
    (h : (Calibration.moduleFindings tables settings m).findSome? Located.stop? =
      (Calibration.moduleFindings tables' settings' m).findSome? Located.stop?) :
    (∃ stop, m.annotate tables settings = (m, .error stop) ∧
        m.annotate tables' settings' = (m, .error stop)) ∨
      ∃ plan plan' m₁ m₂, m.CalibratedBy tables settings plan m₁ ∧
        m.CalibratedBy tables' settings' plan' m₂ := by
  rcases annotate_cases m with ⟨e, he⟩ | ⟨hs, hv⟩
  · exact .inl ⟨.reported e, he tables settings, he tables' settings'⟩
  cases hf : (Calibration.moduleFindings tables settings m).findSome? Located.stop? with
  | some stop =>
    exact .inl ⟨stop, annotate_of_stop hs hv hf, annotate_of_stop hs hv (h.symm.trans hf)⟩
  | none =>
    obtain ⟨plan, m₁, hplan⟩ := exists_calibratedBy_of_findSome? hs hv hf
    obtain ⟨plan', m₂, hplan'⟩ := exists_calibratedBy_of_findSome? hs hv (h.symm.trans hf)
    exact .inr ⟨plan, plan', m₁, m₂, hplan, hplan'⟩

/-- Two calibrations with the same offenders, up to those that break a run off for a cause of its own. -/
theorem annotate_of_offenders {C C' : Prop}
    (h : ∀ p stop, m.Offender tables settings p stop →
      stop = .overflow ∧ C ∨ m.Offender tables' settings' p stop)
    (h' : ∀ p stop, m.Offender tables' settings' p stop →
      stop = .overflow ∧ C' ∨ m.Offender tables settings p stop) :
    (m.annotate tables settings = (m, .error .overflow) ∧ C) ∨
      (m.annotate tables' settings' = (m, .error .overflow) ∧ C') ∨
      (∃ stop, m.annotate tables settings = (m, .error stop) ∧
        m.annotate tables' settings' = (m, .error stop)) ∨
      ∃ plan plan' m₁ m₂, m.CalibratedBy tables settings plan m₁ ∧
        m.CalibratedBy tables' settings' plan' m₂ := by
  rcases annotate_cases m with ⟨e, he⟩ | ⟨hs, hv⟩
  · exact .inr (.inr (.inl ⟨.reported e, he tables settings, he tables' settings'⟩))
  rcases stops_agree h h' with ⟨hfirst, hC⟩ | ⟨hfirst, hC⟩ | hstops
  · exact .inl ⟨annotate_of_stop hs hv (findSome?_moduleFindings_eq_some_iff.2 hfirst), hC⟩
  · exact .inr (.inl ⟨annotate_of_stop hs hv (findSome?_moduleFindings_eq_some_iff.2 hfirst), hC⟩)
  · exact .inr (.inr (annotate_of_findSome?_eq hstops))

/-- Plans that look alike count the same. -/
theorem Alike.plans (h : m.Alike g tables tables' settings settings') {plan plan' : Plan}
    {m₁ m₂ : Module} (hp : m.CalibratedBy tables settings plan m₁)
    (hp' : m.CalibratedBy tables' settings' plan' m₂) :
    plan.summary = plan'.summary ∧ plan.edits.map g = plan'.edits.map g := by
  rw [hp.plan_eq, hp'.plan_eq]
  exact ⟨h.summary_eq, h.edits_eq⟩

/-- The results of two calibrations are related where every operation is. -/
theorem CalibratedBy.related {R : Operation → Operation → Prop} {plan plan' : Plan} {m₁ m₂ : Module}
    (hp : m.CalibratedBy tables settings plan m₁) (hp' : m.CalibratedBy tables' settings' plan' m₂)
    (h : ∀ f ∈ m.functions, ∀ op ∈ f.ops,
      R (op.calibrated tables settings f) (op.calibrated tables' settings' f)) :
    m₁.Related R m₂ where
  name := hp.name_eq.trans hp'.name_eq.symm
  state := hp.state_eq.trans hp'.state_eq.symm
  functions := by
    have hfunction (f : Function) (hf : f ∈ m.functions) : Function.Related R
        (f.calibrated tables settings).refreshed (f.calibrated tables' settings').refreshed :=
      { name := (rfl : f.name = f.name)
        ops := forall₂_map_map (h f hf)
        outputs := (rfl : f.outputs = f.outputs)
        outputTypes := ⟨hp.refresh_eq (hp.mem_functions hf), hp'.refresh_eq (hp'.mem_functions hf)⟩ }
    rw [hp.functions_eq, hp'.functions_eq]
    exact forall₂_map_map hfunction

end Module
end Calibration
