import Calibration.Proofs.Graph.Outputs

/-! # The faults of a module

A name is given twice, an operand is no result of an earlier operation, or an output is no result at all. Of all
faults the first is reported: names that repeat come before all others, wherever they are, and then it goes function
by function, with the operands of each before its outputs.
-/
namespace Calibration

def FirstRepeat (names : List String) (x : String) : Prop :=
  ∃ before after, names = before ++ x :: after ∧ x ∈ before ∧ before.Nodup

def FirstUnknown (known names : List String) (x : String) : Prop :=
  ∃ before after, names = before ++ x :: after ∧ x ∉ known ∧ ∀ y ∈ before, y ∈ known

theorem firstRepeat?_eq_some_iff {seen names : List String} {x : String} :
    firstRepeat? seen names = some x ↔ ∃ before after, names = before ++ x :: after ∧
      (x ∈ seen ∨ x ∈ before) ∧ before.Nodup ∧ ∀ y ∈ before, y ∉ seen := by
  induction names generalizing seen with
  | nil => simp [firstRepeat?]
  | cons name names ih =>
    by_cases hseen : name ∈ seen
    · rw [firstRepeat?, if_pos (by simpa using hseen), Option.some.injEq]
      constructor
      · rintro rfl
        exact ⟨[], names, rfl, .inl hseen, .nil, by simp⟩
      · rintro ⟨_ | ⟨y, before⟩, after, hnames, -, -, hnew⟩
        · exact (List.cons.inj hnames).1
        · exact absurd ((List.cons.inj hnames).1 ▸ hseen) (hnew y List.mem_cons_self)
    · rw [firstRepeat?, if_neg (by simpa using hseen), ih]
      constructor
      · rintro ⟨before, after, rfl, hx, hnodup, hnew⟩
        refine ⟨name :: before, after, rfl, ?_⟩
        grind
      · rintro ⟨_ | ⟨y, before⟩, after, hnames, hx, hnodup, hnew⟩
        · grind
        · cases hnames
          refine ⟨before, after, rfl, ?_⟩
          grind

theorem firstRepeat?_nil_eq_some_iff {names : List String} {x : String} :
    firstRepeat? [] names = some x ↔ FirstRepeat names x := by
  simp [firstRepeat?_eq_some_iff, FirstRepeat]

theorem FirstUnknown.not_forall_mem {known names : List String} {x : String}
    (h : FirstUnknown known names x) : ¬∀ y ∈ names, y ∈ known := by
  obtain ⟨before, after, rfl, hx, -⟩ := h
  exact fun hall => hx (hall x (by simp))

theorem find?_not_contains_iff {known names : List String} {x : String} :
    (names.find? fun y => !known.contains y) = some x ↔ FirstUnknown known names x := by
  simp only [List.find?_eq_some_iff_append, FirstUnknown, Bool.not_eq_true', Bool.not_not,
    List.contains_iff_mem, ← Bool.not_eq_true]
  grind

def resultNames (ops : List Operation) : List String := ops.flatMap fun op => op.results.map Value.name

def DefinedAfter (known : List String) (ops : List Operation) : Prop :=
  ∀ before op after, ops = before ++ op :: after → ∀ x ∈ op.operands, x ∈ known ++ resultNames before

section Operands
variable {known : List String} {ops : List Operation} {op : Operation}

@[simp] theorem resultNames_nil : resultNames [] = [] := rfl

theorem resultNames_cons : resultNames (op :: ops) = op.results.map Value.name ++ resultNames ops :=
  List.flatMap_cons

theorem definedAfter_nil : DefinedAfter known [] := by
  simp [DefinedAfter]

theorem definedAfter_cons : DefinedAfter known (op :: ops) ↔
    (∀ x ∈ op.operands, x ∈ known) ∧ DefinedAfter (known ++ op.results.map Value.name) ops := by
  constructor
  · intro h
    refine ⟨by simpa using h [] op ops rfl, fun before o after hops => ?_⟩
    rw [List.append_assoc, ← resultNames_cons]
    exact h (op :: before) o after (congrArg (op :: ·) hops)
  · rintro ⟨hop, hops⟩ (_ | ⟨o, before⟩) o' after heq
    · cases heq
      simpa using hop
    · cases heq
      rw [resultNames_cons, ← List.append_assoc]
      exact hops before o' after rfl

namespace Function

theorem undefinedOperand?_eq_none_iff :
    undefinedOperand? known ops = none ↔ DefinedAfter known ops := by
  induction ops generalizing known with
  | nil => simp [undefinedOperand?, DefinedAfter]
  | cons op ops ih =>
    rw [undefinedOperand?, definedAfter_cons, ← ih]
    cases hfind : op.operands.find? fun x => !known.contains x with
    | some x =>
      have hall := (find?_not_contains_iff.1 hfind).not_forall_mem
      simp [hall]
    | none =>
      have hall : ∀ x ∈ op.operands, x ∈ known := by simpa using hfind
      exact (and_iff_right hall).symm

/-- The search goes on past an operation only with all its operands known, so what it stops at is the first. -/
theorem undefinedOperand?_eq_some_iff {x name : String} :
    undefinedOperand? known ops = some (x, name) ↔ ∃ before op after,
      ops = before ++ op :: after ∧ DefinedAfter known before ∧
        FirstUnknown (known ++ resultNames before) op.operands x ∧
          name = op.name?.getD "<anonymous>" := by
  induction ops generalizing known with
  | nil => simp [undefinedOperand?]
  | cons op ops ih =>
    rw [undefinedOperand?]
    cases hfind : op.operands.find? fun x => !known.contains x with
    | some y =>
      constructor
      · intro h
        cases h
        exact ⟨[], op, ops, rfl, definedAfter_nil,
          by simpa using find?_not_contains_iff.1 hfind, rfl⟩
      · rintro ⟨_ | ⟨o, before⟩, op', after, hops, hbefore, hx, rfl⟩
        · cases hops
          rw [resultNames_nil, List.append_nil] at hx
          obtain rfl := Option.some.inj (hfind.symm.trans (find?_not_contains_iff.2 hx))
          rfl
        · cases hops
          exact absurd (definedAfter_cons.1 hbefore).1 (find?_not_contains_iff.1 hfind).not_forall_mem
    | none =>
      have hall : ∀ x ∈ op.operands, x ∈ known := by simpa using hfind
      refine ih.trans ⟨?_, ?_⟩
      · rintro ⟨before, op', after, rfl, hbefore, hx, hname⟩
        refine ⟨op :: before, op', after, rfl, definedAfter_cons.2 ⟨hall, hbefore⟩, ?_, hname⟩
        rwa [resultNames_cons, ← List.append_assoc]
      · rintro ⟨_ | ⟨o, before⟩, op', after, hops, hbefore, hx, hname⟩
        · cases hops
          rw [resultNames_nil, List.append_nil] at hx
          exact absurd hall hx.not_forall_mem
        · cases hops
          refine ⟨before, op', after, rfl, (definedAfter_cons.1 hbefore).2, ?_, hname⟩
          rwa [List.append_assoc, ← resultNames_cons]

end Function
end Operands

namespace Function
variable {f : Function} {e : GraphError} {x : String}

def OperandsDefined (f : Function) : Prop := DefinedAfter [] f.ops

/-- The fault of a function, an output only where all operands are defined. -/
inductive Faulty (f : Function) : GraphError → Prop
  | operand {before after : List Operation} {op : Operation} {x : String}
      (hops : f.ops = before ++ op :: after) (hbefore : DefinedAfter [] before)
      (hx : FirstUnknown (resultNames before) op.operands x) :
      Faulty f (.undefinedOperand x (op.name?.getD "<anonymous>"))
  | output {x : String} (hoperands : f.OperandsDefined)
      (hx : FirstUnknown (f.values.map Value.name) f.outputs x) : Faulty f (.unknownValue x)

theorem undefinedOutput?_eq_some_iff :
    f.undefinedOutput? = some x ↔ FirstUnknown (f.values.map Value.name) f.outputs x :=
  find?_not_contains_iff

theorem fault?_eq_none_iff : f.fault? = none ↔ f.OperandsDefined ∧ f.OutputsDefined := by
  rw [OperandsDefined, ← undefinedOperand?_eq_none_iff, ← undefinedOutput?_eq_none_iff, fault?]
  cases undefinedOperand? [] f.ops <;> simp

theorem fault?_eq_some_iff : f.fault? = some e ↔ f.Faulty e := by
  unfold fault?
  constructor
  · intro h
    cases hoperand : undefinedOperand? [] f.ops with
    | some p =>
      obtain ⟨before, op, after, hops, hbefore, hx, hname⟩ := undefinedOperand?_eq_some_iff.1 hoperand
      obtain rfl : _ = e := by simpa [hoperand] using h
      exact hname ▸ .operand hops hbefore hx
    | none =>
      obtain ⟨x, hx, rfl⟩ : ∃ x, f.undefinedOutput? = some x ∧ .unknownValue x = e := by
        simpa [hoperand] using h
      exact .output (undefinedOperand?_eq_none_iff.1 hoperand) (undefinedOutput?_eq_some_iff.1 hx)
  · rintro (⟨hops, hbefore, hx⟩ | ⟨hoperands, hx⟩)
    · rw [undefinedOperand?_eq_some_iff.2 ⟨_, _, _, hops, hbefore, hx, rfl⟩]
    · rw [undefinedOperand?_eq_none_iff.2 hoperands, undefinedOutput?_eq_some_iff.2 hx]
      rfl

end Function

namespace Module
variable {m : Module} {e : GraphError}

/-- The fault a module is refused for, that of a function only where no name repeats. -/
inductive Faulty (m : Module) : GraphError → Prop
  | repeated {x : String} (hx : FirstRepeat m.valueNames x) : Faulty m (.duplicateValue x)
  | function {before after : List Function} {f : Function} {e : GraphError}
      (hnames : m.valueNames.Nodup) (hfunctions : m.functions = before ++ f :: after)
      (hbefore : ∀ g ∈ before, g.OperandsDefined ∧ g.OutputsDefined) (he : f.Faulty e) : Faulty m e

theorem findSome?_fault?_eq_some_iff {fs : List Function} :
    fs.findSome? Function.fault? = some e ↔ ∃ before f after, fs = before ++ f :: after ∧
      f.Faulty e ∧ ∀ g ∈ before, g.OperandsDefined ∧ g.OutputsDefined := by
  simp only [List.findSome?_eq_some_iff, Function.fault?_eq_some_iff, Function.fault?_eq_none_iff]

theorem fault?_eq_some_iff : m.fault? = some e ↔ m.Faulty e := by
  unfold fault?
  constructor
  · intro h
    cases hrepeat : firstRepeat? [] m.valueNames with
    | some x =>
      obtain rfl : _ = e := by simpa [hrepeat] using h
      exact .repeated (firstRepeat?_nil_eq_some_iff.1 hrepeat)
    | none =>
      obtain ⟨before, f, after, hfunctions, he, hbefore⟩ :=
        findSome?_fault?_eq_some_iff.1 (by simpa [hrepeat] using h)
      exact .function (firstRepeat?_eq_none_iff.1 hrepeat).1 hfunctions hbefore he
  · rintro (hx | ⟨hnames, hfunctions, hbefore, he⟩)
    · rw [firstRepeat?_nil_eq_some_iff.2 hx]
    · rw [firstRepeat?_eq_none_iff.2 ⟨hnames, by simp⟩]
      exact findSome?_fault?_eq_some_iff.2 ⟨_, _, _, hfunctions, he, hbefore⟩

theorem validate_eq_error_iff : m.validate = .error e ↔ m.fault? = some e := by
  unfold validate
  cases m.fault? <;> simp

/-- A module passes as soon as it has no fault, and a module with faults is refused for the first of them. -/
theorem validate_reports_first_fault (m : Module) :
    (m.validate = .ok () ↔
      m.valueNames.Nodup ∧ ∀ f ∈ m.functions, f.OperandsDefined ∧ f.OutputsDefined) ∧
    ∀ e, m.validate = .error e ↔ m.Faulty e := by
  refine ⟨?_, fun e => validate_eq_error_iff.trans fault?_eq_some_iff⟩
  simp only [validate_eq_ok_iff, Function.fault?_eq_none_iff]

end Module
end Calibration
