import Calibration.NameMap

/-! # What was filed last

Values are filed under names, one at most at each moment. A map into which they are inserted as they come
holds for every name the value filed last, and for no other name any value.
-/
namespace Calibration
variable {α : Type}

/-- Before moment `n` the last value filed under `name` was `a`. -/
def Latest (FiledAt : Nat → String → α → Prop) (n : Nat) (name : String) (a : α) : Prop :=
  ∃ i < n, FiledAt i name a ∧ ∀ j b, j < n → FiledAt j name b → j ≤ i

def NameMap.Keeps (m : NameMap α) (FiledAt : Nat → String → α → Prop) (n : Nat) : Prop :=
  ∀ name a, m.get? name = some a ↔ Latest FiledAt n name a

variable {FiledAt FiledAt' : Nat → String → α → Prop} {n : Nat} {name : String} {a b : α}

theorem latest_succ_of_not_filed (hn : ∀ b, ¬FiledAt n name b) :
    Latest FiledAt (n + 1) name a ↔ Latest FiledAt n name a := by
  have hne {i : Nat} {b : α} (hb : FiledAt i name b) : i ≠ n := by
    rintro rfl
    exact hn b hb
  constructor
  · rintro ⟨i, hi, ha, hlast⟩
    have hin := hne ha
    exact ⟨i, by omega, ha, fun j b hj => hlast j b (by omega)⟩
  · rintro ⟨i, hi, ha, hlast⟩
    refine ⟨i, by omega, ha, fun j b hj hb => ?_⟩
    have hjn := hne hb
    exact hlast j b (by omega) hb

theorem latest_succ_of_filed (ha : FiledAt n name a) (hone : ∀ b, FiledAt n name b → b = a) :
    Latest FiledAt (n + 1) name b ↔ b = a := by
  constructor
  · rintro ⟨i, hi, hb, hlast⟩
    have hle := hlast n a (by omega) ha
    have hin : i = n := by omega
    exact hone b (hin ▸ hb)
  · rintro rfl
    exact ⟨n, by omega, ha, fun j c hj _ => by omega⟩

theorem Latest.congr (hiff : ∀ i < n, ∀ a, FiledAt i name a ↔ FiledAt' i name a)
    (h : Latest FiledAt n name a) : Latest FiledAt' n name a := by
  obtain ⟨i, hi, ha, hlast⟩ := h
  exact ⟨i, hi, (hiff i hi a).1 ha, fun j b hj hb => hlast j b hj ((hiff j hj b).2 hb)⟩

namespace NameMap
variable {m m' : NameMap α}

theorem keeps_empty : (empty : NameMap α).Keeps FiledAt 0 := by
  intro name a
  simp [Latest]

theorem Keeps.skip (h : m.Keeps FiledAt n) (hn : ∀ name a, ¬FiledAt n name a) :
    m.Keeps FiledAt (n + 1) := by
  intro name a
  rw [latest_succ_of_not_filed (hn name)]
  exact h name a

theorem Keeps.insert (h : m.Keeps FiledAt n) (ha : FiledAt n name a)
    (hone : ∀ name' a', FiledAt n name' a' → name' = name ∧ a' = a) :
    (m.insert name a).Keeps FiledAt (n + 1) := by
  intro key b
  rw [get?_insert]
  split
  · next heq =>
    subst heq
    rw [latest_succ_of_filed ha fun b hb => (hone key b hb).2]
    simp [eq_comm]
  · next hne =>
    rw [latest_succ_of_not_filed fun b hb => hne (hone key b hb).1]
    exact h key b

theorem Keeps.unique (h : m.Keeps FiledAt n) (h' : m'.Keeps FiledAt n) : m = m' := by
  apply ext_get?
  intro name
  apply Option.ext
  intro a
  rw [h name a, h' name a]

theorem Keeps.congr (h : m.Keeps FiledAt n)
    (hiff : ∀ i < n, ∀ name a, FiledAt i name a ↔ FiledAt' i name a) : m.Keeps FiledAt' n := by
  intro name a
  rw [h name a]
  constructor
  · exact Latest.congr fun i hi => hiff i hi name
  · exact Latest.congr fun i hi a => (hiff i hi name a).symm

end NameMap
end Calibration
