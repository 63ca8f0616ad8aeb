import Calibration.NameMap

/-! # Filing many entries

Entries filed one after another cover what was filed before under their names, and of two with one name
the later counts. Filing them all a second time changes nothing.
-/
namespace Calibration.NameMap
variable {α : Type}

def insertAll (m : NameMap α) (es : List (String × α)) : NameMap α :=
  es.foldl (fun m e => m.insert e.1 e.2) m

@[simp] theorem insertAll_nil (m : NameMap α) : m.insertAll [] = m := rfl

theorem insertAll_append (m : NameMap α) (es es' : List (String × α)) :
    m.insertAll (es ++ es') = (m.insertAll es).insertAll es' := by
  unfold insertAll
  exact List.foldl_append

/-- Entries under two names are filed in any order. -/
theorem insert_comm (m : NameMap α) {name name' : String} (h : name ≠ name') (a b : α) :
    (m.insert name a).insert name' b = (m.insert name' b).insert name a := by
  apply ext_get?
  intro key
  simp only [get?_insert]
  split
  · next hkey => rw [if_neg fun heq => h (heq.symm.trans hkey)]
  · rfl

theorem ofList_eq_insertAll (es : List (String × α)) : ofList es = empty.insertAll es := rfl

/-- The last entry of a name is found, or else what was filed before. -/
theorem get?_insertAll (m : NameMap α) (es : List (String × α)) (name : String) :
    (m.insertAll es).get? name = (es.reverse.lookup name).or (m.get? name) := by
  induction es generalizing m with
  | nil => rfl
  | cons e es ih =>
    obtain ⟨key, a⟩ := e
    have hrest := ih (m.insert key a)
    rw [get?_insert] at hrest
    change ((m.insert key a).insertAll es).get? name = _
    rw [hrest, List.reverse_cons, List.lookup_append, lookup_cons]
    cases es.reverse.lookup name with
    | some b => rfl
    | none => by_cases h : name = key <;> simp [h]

theorem get?_insertAll_of_not_mem (m : NameMap α) {es : List (String × α)} {name : String}
    (h : name ∉ es.map Prod.fst) : (m.insertAll es).get? name = m.get? name := by
  have hnone : es.reverse.lookup name = none := by
    refine List.lookup_eq_none_iff.2 fun e he => ?_
    have hne : name ≠ e.1 := fun heq => h (heq ▸ List.mem_map_of_mem (List.mem_reverse.1 he))
    simpa using hne
  rw [get?_insertAll, hnone, Option.none_or]

/-- Where no name comes twice, every entry that is filed is found. -/
theorem get?_insertAll_of_mem (m : NameMap α) {es : List (String × α)} {name : String} {a : α}
    (hnames : (es.map Prod.fst).Nodup) (h : (name, a) ∈ es) :
    (m.insertAll es).get? name = some a := by
  induction es generalizing m with
  | nil => cases h
  | cons e es ih =>
    obtain ⟨hfresh, hnames⟩ := List.nodup_cons.1 hnames
    change ((m.insert e.1 e.2).insertAll es).get? name = some a
    rcases List.mem_cons.1 h with rfl | h
    · rw [get?_insertAll_of_not_mem _ hfresh, get?_insert_self]
    · exact ih _ hnames h

theorem mem_entries_insertAll {m : NameMap α} {es : List (String × α)} {e : String × α}
    (h : e ∈ (m.insertAll es).entries) : e ∈ m.entries ∨ e ∈ es := by
  induction es generalizing m with
  | nil => exact .inl h
  | cons x es ih =>
    rcases ih h with h | h
    · rcases mem_insertEntry h with rfl | h
      · exact .inr List.mem_cons_self
      · exact .inl h
    · exact .inr (List.mem_cons_of_mem _ h)

theorem insertAll_insertAll_self (m : NameMap α) (es : List (String × α)) :
    (m.insertAll es).insertAll es = m.insertAll es := by
  apply ext_get?
  intro name
  rw [get?_insertAll, get?_insertAll]
  cases es.reverse.lookup name <;> rfl

theorem insertEntry_of_forall_lt {name : String} {a : α} {es : List (String × α)}
    (h : ∀ e ∈ es, e.1 < name) : insertEntry name a es = es ++ [(name, a)] := by
  induction es with
  | nil => rfl
  | cons e es ih =>
    obtain ⟨key, b⟩ := e
    obtain ⟨hkey, hes⟩ := List.forall_mem_cons.1 h
    have hne : name ≠ key := by
      rintro rfl
      exact String.lt_irrefl _ hkey
    rw [insertEntry, if_neg (String.lt_asymm hkey), if_neg hne, ih hes]
    rfl

/-- Entries that come in the order of their names are put one behind another. -/
theorem entries_insertAll {m : NameMap α} {es : List (String × α)}
    (h : (m.entries ++ es).Pairwise fun a b => a.1 < b.1) :
    (m.insertAll es).entries = m.entries ++ es := by
  induction es generalizing m with
  | nil => rw [insertAll_nil, List.append_nil]
  | cons e es ih =>
    have hlt : ∀ x ∈ m.entries, x.1 < e.1 := fun x hx =>
      (List.pairwise_append.1 h).2.2 x hx e List.mem_cons_self
    have hinsert : (m.insert e.1 e.2).entries = m.entries ++ [e] := insertEntry_of_forall_lt hlt
    have hassoc : m.entries ++ e :: es = (m.entries ++ [e]) ++ es := by simp
    rw [hassoc, ← hinsert] at h
    change ((m.insert e.1 e.2).insertAll es).entries = _
    rw [ih h, hinsert, hassoc]

theorem ofList_entries (m : NameMap α) : ofList m.entries = m := by
  have hentries : (ofList m.entries).entries = m.entries := by
    rw [ofList_eq_insertAll, entries_insertAll (by simpa [empty] using m.sorted)]
    rfl
  cases m
  generalize ofList _ = m at hentries
  cases m
  cases hentries
  rfl

def mapValues {β : Type} (g : α → β) (m : NameMap α) : NameMap β :=
  ⟨m.entries.map fun e => (e.1, g e.2), List.pairwise_map.2 m.sorted⟩

theorem mapValues_eq_self {g : α → α} {m : NameMap α} (h : ∀ e ∈ m.entries, g e.2 = e.2) :
    m.mapValues g = m := by
  have hentries : (m.entries.map fun e => (e.1, g e.2)) = m.entries.map id :=
    List.map_congr_left fun e he => Prod.ext rfl (h e he)
  rw [List.map_id] at hentries
  unfold mapValues
  simp only [hentries]

end Calibration.NameMap
