import Calibration.Proofs.Graph.Faults

/-! # What a refresh leaves behind

A function is given the types of all its outputs or is left as it is. A module is refreshed one function after the
other, up to the first that has an unknown output: those before it have been refreshed by then, and nothing is
done to it and to those after it.
-/
namespace Calibration

def FirstNamed (vs : List Value) (x : String) (v : Value) : Prop :=
  ∃ before after, vs = before ++ v :: after ∧ v.name = x ∧ ∀ w ∈ before, w.name ≠ x

theorem find?_name_eq_some_iff {vs : List Value} {x : String} {v : Value} :
    (vs.find? fun w => w.name = x) = some v ↔ FirstNamed vs x v := by
  simp only [List.find?_eq_some_iff_append, FirstNamed, decide_eq_true_eq, Bool.not_eq_true',
    decide_eq_false_iff_not]
  constructor
  · rintro ⟨hv, before, after, hvs, hbefore⟩
    exact ⟨before, after, hvs, hv, hbefore⟩
  · rintro ⟨before, after, hvs, hv, hbefore⟩
    exact ⟨hv, before, after, hvs, hbefore⟩

namespace Function
variable {f f' : Function} {e : GraphError}

/-- `f'` is `f` with the types of its outputs in their order, each that of the first result of its name. -/
structure RefreshedTo (f f' : Function) : Prop where
  outputTypes : List.Forall₂ (fun x type => ∃ v, FirstNamed f.values x v ∧ v.type = type) f.outputs
    f'.outputTypes
  rest : f' = { f with outputTypes := f'.outputTypes }

theorem refresh_eq_ok_iff_refreshedTo : f.refresh = .ok f' ↔ f.RefreshedTo f' := by
  simp only [refresh_eq_ok_iff, typesOf_eq_ok_iff, value?, find?_name_eq_some_iff]
  constructor
  · rintro ⟨types, htypes, rfl⟩
    exact ⟨htypes, rfl⟩
  · rintro ⟨htypes, hrest⟩
    exact ⟨f'.outputTypes, htypes, hrest⟩

/-- The first name without a value is the first that no result has. -/
theorem typesOf_eq_error_iff {names : List String} :
    f.typesOf names = .error e ↔
      ∃ x, FirstUnknown (f.values.map Value.name) names x ∧ e = .unknownValue x := by
  induction names with
  | nil => simp [typesOf, FirstUnknown]
  | cons name names ih =>
    rw [typesOf]
    cases hv : f.value? name with
    | none =>
      have hname : name ∉ f.values.map Value.name := fun h => by
        obtain ⟨v, hv'⟩ := exists_value? h
        cases hv.symm.trans hv'
      constructor
      · intro h
        cases h
        exact ⟨name, ⟨[], names, rfl, hname, by simp⟩, rfl⟩
      · rintro ⟨x, ⟨_ | ⟨y, before⟩, after, hnames, -, hbefore⟩, rfl⟩
        · cases hnames
          rfl
        · cases hnames
          exact absurd (hbefore name List.mem_cons_self) hname
    | some v =>
      have hname : name ∈ f.values.map Value.name := by
        have hfirst : v.name = name := by simpa using List.find?_some hv
        exact hfirst ▸ List.mem_map_of_mem (List.mem_of_find?_eq_some hv)
      have hmap : (f.typesOf names).map (v.type :: ·) = .error e ↔ f.typesOf names = .error e := by
        cases f.typesOf names <;> simp [Except.map]
      refine hmap.trans (ih.trans ⟨?_, ?_⟩)
      · rintro ⟨x, ⟨before, after, rfl, hx, hbefore⟩, rfl⟩
        exact ⟨x, ⟨name :: before, after, rfl, hx, List.forall_mem_cons.2 ⟨hname, hbefore⟩⟩, rfl⟩
      · rintro ⟨x, ⟨_ | ⟨y, before⟩, after, hnames, hx, hbefore⟩, rfl⟩
        · cases hnames
          exact absurd hname hx
        · cases hnames
          exact ⟨x, ⟨before, after, rfl, hx, (List.forall_mem_cons.1 hbefore).2⟩, rfl⟩

theorem refresh_eq_error_iff : f.refresh = .error e ↔
    ∃ x, FirstUnknown (f.values.map Value.name) f.outputs x ∧ e = .unknownValue x := by
  have hmap : f.refresh = .error e ↔ f.typesOf f.outputs = .error e := by
    unfold refresh
    cases f.typesOf f.outputs <;> simp [Except.map]
  exact hmap.trans typesOf_eq_error_iff

theorem outputsDefined_iff_exists : f.OutputsDefined ↔ ∃ f', f.RefreshedTo f' := by
  constructor
  · intro h
    exact ⟨f.refreshed, refresh_eq_ok_iff_refreshedTo.1 h.refresh_eq⟩
  · rintro ⟨f', h⟩
    refine Classical.byContradiction fun hundefined => ?_
    -- Some output is unknown, and then there is a first one, with which the refresh would fail.
    obtain ⟨x, hx⟩ := Option.ne_none_iff_exists'.1 (mt undefinedOutput?_eq_none_iff.1 hundefined)
    have herror := refresh_eq_error_iff.2 ⟨x, undefinedOutput?_eq_some_iff.1 hx, rfl⟩
    cases herror.symm.trans (refresh_eq_ok_iff_refreshedTo.2 h)

end Function

/-- The functions that a refresh leaves, with its answer. -/
inductive RefreshEnds (fs : List Function) : List Function × Except GraphError Unit → Prop
  | complete {fs' : List Function} (h : List.Forall₂ Function.RefreshedTo fs fs') :
    RefreshEnds fs (fs', .ok ())
  | stopped {before before' after : List Function} {f : Function} {x : String}
    (hfs : fs = before ++ f :: after) (hbefore : List.Forall₂ Function.RefreshedTo before before')
    (hx : FirstUnknown (f.values.map Value.name) f.outputs x) :
    RefreshEnds fs (before' ++ f :: after, .error (.unknownValue x))

/-- A function that can be refreshed in front of others. -/
theorem RefreshEnds.cons {f f' : Function} {fs fs' : List Function} {r : Except GraphError Unit}
    (hf : f.RefreshedTo f') (h : RefreshEnds fs (fs', r)) : RefreshEnds (f :: fs) (f' :: fs', r) := by
  cases h with
  | complete h => exact .complete (.cons hf h)
  | stopped hfs hbefore hx => exact .stopped (congrArg (f :: ·) hfs) (.cons hf hbefore) hx

theorem refreshEnds (fs : List Function) : RefreshEnds fs (refreshFunctions fs) := by
  induction fs with
  | nil => exact .complete .nil
  | cons f fs ih =>
    rw [refreshFunctions]
    cases hf : f.refresh with
    | error e =>
      obtain ⟨x, hx, rfl⟩ := Function.refresh_eq_error_iff.1 hf
      have hfirst : f :: fs = [] ++ f :: fs := rfl
      exact .stopped hfirst .nil hx
    | ok f' => exact ih.cons (Function.refresh_eq_ok_iff_refreshedTo.1 hf)

theorem refreshFunctions_of_forall₂ {fs fs' : List Function}
    (h : List.Forall₂ Function.RefreshedTo fs fs') : refreshFunctions fs = (fs', .ok ()) := by
  induction h with
  | nil => rfl
  | cons hf _ ih => rw [refreshFunctions, Function.refresh_eq_ok_iff_refreshedTo.2 hf, ih]

theorem refreshFunctions_of_firstUnknown {before before' after : List Function} {f : Function} {x : String}
    (hbefore : List.Forall₂ Function.RefreshedTo before before')
    (hx : FirstUnknown (f.values.map Value.name) f.outputs x) :
    refreshFunctions (before ++ f :: after) = (before' ++ f :: after, .error (.unknownValue x)) := by
  induction hbefore with
  | nil =>
    change refreshFunctions (f :: after) = _
    rw [refreshFunctions, Function.refresh_eq_error_iff.2 ⟨x, hx, rfl⟩]
    rfl
  | cons hg _ ih =>
    rw [List.cons_append, refreshFunctions, Function.refresh_eq_ok_iff_refreshedTo.2 hg, ih,
      List.cons_append]

theorem refreshFunctions_eq_iff {fs : List Function} {r : List Function × Except GraphError Unit} :
    refreshFunctions fs = r ↔ RefreshEnds fs r := by
  constructor
  · rintro rfl
    exact refreshEnds fs
  · rintro (h | ⟨rfl, hbefore, hx⟩)
    · exact refreshFunctions_of_forall₂ h
    · exact refreshFunctions_of_firstUnknown hbefore hx

theorem exists_forall₂_refreshedTo_iff {fs : List Function} :
    (∃ fs', List.Forall₂ Function.RefreshedTo fs fs') ↔ ∀ f ∈ fs, f.OutputsDefined := by
  simp only [Function.outputsDefined_iff_exists]
  constructor
  · rintro ⟨fs', h⟩
    induction h with
    | nil => simp
    | cons hf _ ih => exact List.forall_mem_cons.2 ⟨⟨_, hf⟩, ih⟩
  · intro h
    induction fs with
    | nil => exact ⟨[], .nil⟩
    | cons f fs ih =>
      obtain ⟨⟨f', hf⟩, hfs⟩ := List.forall_mem_cons.1 h
      obtain ⟨fs', hfs'⟩ := ih hfs
      exact ⟨f' :: fs', .cons hf hfs'⟩

namespace Module
variable {m m' : Module} {r : Except GraphError Unit}

/-- A refresh of a module is that of its functions. -/
theorem refresh_eq_iff : m.refresh = (m', r) ↔
    ∃ fs, RefreshEnds m.functions (fs, r) ∧ m' = { m with functions := fs } := by
  rw [refresh, Prod.mk.injEq]
  constructor
  · rintro ⟨rfl, rfl⟩
    exact ⟨_, refreshEnds m.functions, rfl⟩
  · rintro ⟨fs, hends, rfl⟩
    rw [refreshFunctions_eq_iff.2 hends]
    exact ⟨rfl, rfl⟩

/-- A refresh succeeds exactly if all outputs are defined, and then every function has the types of its outputs.
Otherwise it reports the first output that is unknown in the first function that has one, with the functions
before that one refreshed. Nothing else of the module changes. -/
theorem refresh_up_to_first_unknown (m : Module) :
    (m.refresh.2 = .ok () ↔ m.OutputsDefined) ∧
    (∀ m', m.refresh = (m', .ok ()) ↔ ∃ fs, List.Forall₂ Function.RefreshedTo m.functions fs ∧
      m' = { m with functions := fs }) ∧
    ∀ m' e, m.refresh = (m', .error e) ↔ ∃ before before' f after x,
      m.functions = before ++ f :: after ∧ List.Forall₂ Function.RefreshedTo before before' ∧
      FirstUnknown (f.values.map Value.name) f.outputs x ∧ e = .unknownValue x ∧
      m' = { m with functions := before' ++ f :: after } := by
  have hok (m' : Module) : m.refresh = (m', .ok ()) ↔
      ∃ fs, List.Forall₂ Function.RefreshedTo m.functions fs ∧ m' = { m with functions := fs } := by
    rw [refresh_eq_iff]
    constructor
    · rintro ⟨fs, hends, rfl⟩
      cases hends with
      | complete h => exact ⟨fs, h, rfl⟩
    · rintro ⟨fs, h, rfl⟩
      exact ⟨fs, .complete h, rfl⟩
  refine ⟨⟨fun h => ?_, OutputsDefined.refresh⟩, hok, fun m' e => ?_⟩
  · obtain ⟨fs, hfs, -⟩ := (hok m.refresh.1).1 (Prod.ext rfl h)
    exact exists_forall₂_refreshedTo_iff.1 ⟨fs, hfs⟩
  · rw [refresh_eq_iff]
    constructor
    · rintro ⟨fs, hends, rfl⟩
      cases hends with
      | stopped hfs hbefore hx => exact ⟨_, _, _, _, _, hfs, hbefore, hx, rfl, rfl⟩
    · rintro ⟨before, before', f, after, x, hfs, hbefore, hx, rfl, rfl⟩
      exact ⟨_, .stopped hfs hbefore hx, rfl⟩

end Module
end Calibration
