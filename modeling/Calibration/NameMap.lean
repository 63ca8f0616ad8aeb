/-! # Maps keyed by names

The entries stand in the order of their names, by code point, and no name occurs twice. Two maps
with the same entries are therefore equal, and a map is written in order without sorting it.
-/
namespace Calibration

structure NameMap (α : Type) where
  entries : List (String × α)
  sorted : entries.Pairwise (fun a b => a.1 < b.1)
  deriving DecidableEq

namespace NameMap
variable {α : Type}

def empty : NameMap α := ⟨[], .nil⟩

instance : EmptyCollection (NameMap α) := ⟨empty⟩
instance : Inhabited (NameMap α) := ⟨empty⟩

def insertEntry (name : String) (a : α) : List (String × α) → List (String × α)
  | [] => [(name, a)]
  | (other, b) :: rest =>
    if name < other then (name, a) :: (other, b) :: rest
    else if name = other then (name, a) :: rest
    else (other, b) :: insertEntry name a rest

theorem mem_insertEntry {name : String} {a : α} {e : String × α} {es : List (String × α)}
    (h : e ∈ insertEntry name a es) : e = (name, a) ∨ e ∈ es := by
  induction es with
  | nil => simpa [insertEntry] using h
  | cons x rest ih =>
    obtain ⟨other, b⟩ := x
    rw [insertEntry] at h
    split at h
    · simpa using h
    · split at h
      · rcases List.mem_cons.1 h with h | h
        · exact .inl h
        · exact .inr (List.mem_cons_of_mem _ h)
      · rcases List.mem_cons.1 h with h | h
        · exact .inr (h ▸ List.mem_cons_self)
        · exact (ih h).imp id (List.mem_cons_of_mem _)

theorem insertEntry_sorted (name : String) (a : α) {es : List (String × α)}
    (h : es.Pairwise (fun a b => a.1 < b.1)) :
    (insertEntry name a es).Pairwise (fun a b => a.1 < b.1) := by
  induction es with
  | nil => exact List.pairwise_singleton _ _
  | cons x rest ih =>
    obtain ⟨other, b⟩ := x
    obtain ⟨hx, hrest⟩ := List.pairwise_cons.1 h
    rw [insertEntry]
    split
    · next hlt =>
      refine List.pairwise_cons.2 ⟨fun e he => ?_, h⟩
      rcases List.mem_cons.1 he with rfl | he
      · exact hlt
      · exact String.lt_trans hlt (hx e he)
    · next hge =>
      split
      · next heq => exact List.pairwise_cons.2 ⟨fun e he => heq ▸ hx e he, hrest⟩
      · next hne =>
        refine List.pairwise_cons.2 ⟨fun e he => ?_, ih hrest⟩
        rcases mem_insertEntry he with rfl | he
        · have hle : other ≤ name := String.not_lt.1 hge
          exact Decidable.byContradiction fun hc =>
            hne (String.le_antisymm (String.not_lt.1 hc) hle)
        · exact hx e he

def insert (m : NameMap α) (name : String) (a : α) : NameMap α :=
  ⟨insertEntry name a m.entries, insertEntry_sorted name a m.sorted⟩

def get? (m : NameMap α) (name : String) : Option α := m.entries.lookup name
def contains (m : NameMap α) (name : String) : Bool := (m.get? name).isSome
def size (m : NameMap α) : Nat := m.entries.length
def isEmpty (m : NameMap α) : Bool := m.entries.isEmpty

def ofList (es : List (String × α)) : NameMap α :=
  es.foldl (fun m e => m.insert e.1 e.2) empty

@[simp] theorem get?_empty (name : String) : (empty : NameMap α).get? name = none := rfl

theorem lookup_cons (name key : String) (a : α) (es : List (String × α)) :
    ((name, a) :: es).lookup key = if key = name then some a else es.lookup key := by
  by_cases h : key = name
  · subst h
    simp
  · have hb : (key == name) = false := by simpa using h
    simp [List.lookup_cons, hb, h]

theorem lookup_insertEntry (name key : String) (a : α) (es : List (String × α)) :
    (insertEntry name a es).lookup key = if key = name then some a else es.lookup key := by
  induction es with
  | nil => simp [insertEntry, lookup_cons]
  | cons x rest ih =>
    obtain ⟨other, b⟩ := x
    rw [insertEntry]
    split
    · simp [lookup_cons]
    · split
      · next heq =>
        subst heq
        by_cases h : key = name <;> simp [lookup_cons, h]
      · next hne =>
        by_cases h : key = other
        · subst h
          simp [Ne.symm hne]
        · simp [lookup_cons, h, ih]

theorem get?_insert (m : NameMap α) (name key : String) (a : α) :
    (m.insert name a).get? key = if key = name then some a else m.get? key :=
  lookup_insertEntry name key a m.entries

@[simp] theorem get?_insert_self (m : NameMap α) (name : String) (a : α) :
    (m.insert name a).get? name = some a := by simp [get?_insert]

@[simp] theorem get?_insert_of_ne (m : NameMap α) {name key : String} (a : α) (h : key ≠ name) :
    (m.insert name a).get? key = m.get? key := by simp [get?_insert, h]

theorem get?_eq_some_iff {m : NameMap α} {name : String} {a : α} :
    m.get? name = some a ↔ (name, a) ∈ m.entries := by
  constructor
  · intro h
    obtain ⟨before, after, hes, -⟩ := List.lookup_eq_some_iff.1 h
    rw [hes]
    exact List.mem_append_right _ List.mem_cons_self
  · intro h
    obtain ⟨before, after, hes⟩ := List.append_of_mem h
    have hsorted := m.sorted
    rw [hes] at hsorted
    refine List.lookup_eq_some_iff.2 ⟨before, after, hes, fun e he => ?_⟩
    have hlt : e.1 < name := (List.pairwise_append.1 hsorted).2.2 e he _ List.mem_cons_self
    have hne : name ≠ e.1 := fun heq => String.lt_irrefl name (heq ▸ hlt)
    simpa using hne

/-- A map is known from its look-ups. -/
theorem ext_get? {m m' : NameMap α} (h : ∀ name, m.get? name = m'.get? name) : m = m' := by
  have hmem (e : String × α) : e ∈ m.entries ↔ e ∈ m'.entries := by
    rw [← get?_eq_some_iff, ← get?_eq_some_iff, h]
  have hnodup (m : NameMap α) : m.entries.Nodup := by
    refine m.sorted.imp fun {a b} hlt heq => ?_
    subst heq
    exact String.lt_irrefl _ hlt
  have hperm := (List.perm_ext_iff_of_nodup (hnodup m) (hnodup m')).2 hmem
  have hes : m.entries = m'.entries := by
    refine hperm.eq_of_pairwise (fun a b _ _ hab hba => ?_) m.sorted m'.sorted
    exact absurd hba (String.lt_asymm hab)
  cases m
  cases m'
  cases hes
  rfl

end NameMap
end Calibration
