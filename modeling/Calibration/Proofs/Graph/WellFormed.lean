import Calibration.Graph.Validity
import Mathlib.Data.List.Flatten
import Mathlib.Data.List.Nodup

/-! # What makes a module well formed

A module is well formed where no two results share a name and every function is so by itself. The first is
said of the module as a whole, yet it needs no order among functions, and it is passed on to any of them.
-/
namespace Calibration

theorem firstRepeat?_eq_none_iff {names seen : List String} :
    firstRepeat? seen names = none ↔ names.Nodup ∧ ∀ x ∈ names, x ∉ seen := by
  induction names generalizing seen with
  | nil => simp [firstRepeat?]
  | cons name names ih =>
    by_cases hseen : name ∈ seen
    · simp [firstRepeat?, hseen]
    · rw [firstRepeat?, if_neg (by simpa using hseen), ih, List.nodup_cons, List.forall_mem_cons]
      constructor
      · rintro ⟨hnodup, hnew⟩
        exact ⟨⟨fun h => hnew name h List.mem_cons_self, hnodup⟩, hseen,
          fun x hx h => hnew x hx (List.mem_cons_of_mem _ h)⟩
      · rintro ⟨⟨hname, hnodup⟩, -, hnew⟩
        refine ⟨hnodup, fun x hx h => ?_⟩
        rcases List.mem_cons.1 h with rfl | h
        · exact hname hx
        · exact hnew x hx h

namespace Module

theorem validate_eq_ok_iff {m : Module} :
    m.validate = .ok () ↔ m.valueNames.Nodup ∧ ∀ f ∈ m.functions, f.fault? = none := by
  have hnames : firstRepeat? [] m.valueNames = none ↔ m.valueNames.Nodup := by
    simp [firstRepeat?_eq_none_iff]
  rw [← hnames, ← List.findSome?_eq_none_iff, validate, fault?]
  cases firstRepeat? [] m.valueNames with
  | some name => simp
  | none => cases m.functions.findSome? Function.fault? <;> simp

/-- Neither the name nor the state matter, nor the order of functions. -/
theorem validate_of_perm {m m' : Module} (h : m'.functions.Perm m.functions) (hv : m.validate = .ok ()) :
    m'.validate = .ok () := by
  obtain ⟨hnodup, hfault⟩ := validate_eq_ok_iff.1 hv
  refine validate_eq_ok_iff.2 ⟨?_, fun f hf => hfault f (h.mem_iff.1 hf)⟩
  exact (h.flatMap_right _).nodup_iff.2 hnodup

/-- No function needs another one to be well formed. -/
theorem validate_of_sublist {m m' : Module} (h : m'.functions.Sublist m.functions)
    (hv : m.validate = .ok ()) : m'.validate = .ok () := by
  obtain ⟨hnodup, hfault⟩ := validate_eq_ok_iff.1 hv
  refine validate_eq_ok_iff.2 ⟨?_, fun f hf => hfault f (h.subset hf)⟩
  exact hnodup.sublist (h.flatMap _)

end Module
end Calibration
