import Calibration.Folder

/-! # Files after a write

Whether a path can be written to does not depend on what is written. A file is put only where no folder is,
so every path leads where it led before, and what was written is read there.
-/
namespace Calibration.Folder
variable {f : Folder} {l l' : Location} {path : String} {bytes : ByteArray}

theorem names_ne_nil (h : f.node? l ≠ some .directory) : l.names ≠ [] := by
  intro hnil
  simp [node?, hnil] at h

theorem node?_eq_get? (h : l.names ≠ []) : f.node? l = f.nodes.get? l.path := by
  simp [node?, h]

theorem write_eq_ok_iff {f' : Folder} : f.write path bytes = .ok f' ↔
    ∃ l, f.locate path (Location.stepsToWrite path) = .ok l ∧ f.node? l ≠ some .directory ∧
      f' = f.put l (.file bytes) := by
  unfold write
  cases f.locate path (Location.stepsToWrite path) with
  | error fault => simp
  | ok l =>
    cases hnode : f.node? l with
    | none => simp [hnode, eq_comm]
    | some node => cases node <;> simp [hnode, eq_comm]

theorem write_eq_error_iff {fault : FileFault} : f.write path bytes = .error fault ↔
    f.locate path (Location.stepsToWrite path) = .error fault ∨
      ∃ l, f.locate path (Location.stepsToWrite path) = .ok l ∧ f.node? l = some .directory ∧
        fault = .isDirectory := by
  unfold write
  cases f.locate path (Location.stepsToWrite path) with
  | error fault => simp
  | ok l =>
    cases hnode : f.node? l with
    | none => simp [hnode]
    | some node => cases node <;> simp [hnode, eq_comm]

theorem locate_eq_ok_iff {steps : List String} : f.locate path steps = .ok l ↔
    '\x00' ∉ path.toList ∧ path ≠ "" ∧ path.utf8ByteSize ≤ pathLimit ∧
      f.follow (.start path) steps = .ok l := by
  simp only [locate, List.contains_iff_mem, ← Nat.not_lt]
  split
  · next hnul => simp [hnul]
  · next hnul =>
    split
    · next hempty => simp [hempty]
    · next hempty =>
      split
      · next hlong => simp [hlong]
      · next hlong => simp [hnul, hempty, hlong]

section Put
variable (hl : f.node? l ≠ some .directory) (node : FileNode)
include hl

/-- What is put where no folder is leaves the folders where they are. -/
theorem node?_put_of_directory (h : f.node? l' = some .directory) :
    (f.put l node).node? l' = some .directory := by
  by_cases hnames : l'.names = []
  · simp [node?, hnames]
  · rw [node?_eq_get? hnames] at h ⊢
    have hne : l'.path ≠ l.path := by
      intro hpath
      rw [node?_eq_get? (names_ne_nil hl), ← hpath] at hl
      exact hl h
    rw [put, NameMap.get?_insert_of_ne _ _ hne, h]

theorem step_put {name : String} {next : Location} (h : f.step l' name = .ok next) :
    (f.put l node).step l' name = .ok next := by
  cases hnode : f.node? l' with
  | none => simp [step, hnode] at h
  | some found =>
    cases found with
    | file => simp [step, hnode] at h
    | directory =>
      simp only [step, hnode] at h
      simpa only [step, node?_put_of_directory hl node hnode] using h

/-- A path that leads somewhere leads there still. -/
theorem follow_put {steps : List String} {last : Location} (h : f.follow l' steps = .ok last) :
    (f.put l node).follow l' steps = .ok last := by
  induction steps generalizing l' with
  | nil => exact h
  | cons name rest ih =>
    rw [follow] at h ⊢
    cases hstep : f.step l' name with
    | error fault => simp [hstep, Except.bind] at h
    | ok next =>
      rw [hstep] at h
      rw [step_put hl node hstep]
      exact ih h

theorem locate_put {steps : List String} {last : Location} (h : f.locate path steps = .ok last) :
    (f.put l node).locate path steps = .ok last := by
  obtain ⟨hnul, hempty, hlong, hfollow⟩ := locate_eq_ok_iff.1 h
  exact locate_eq_ok_iff.2 ⟨hnul, hempty, hlong, follow_put hl node hfollow⟩

end Put

/-- A step to the place itself is taken in folders only. -/
theorem directory_of_follow_dot {steps : List String} {last : Location}
    (h : f.follow l (steps ++ ["."]) = .ok last) : f.node? last = some .directory := by
  induction steps generalizing l with
  | nil =>
    rw [List.nil_append, follow] at h
    cases hnode : f.node? l with
    | none => simp [step, hnode, Except.bind] at h
    | some found =>
      cases found with
      | file => simp [step, hnode, Except.bind] at h
      | directory =>
        simp only [step, hnode, Except.bind] at h
        cases h
        exact hnode
  | cons name rest ih =>
    rw [List.cons_append, follow] at h
    cases hstep : f.step l name with
    | error fault => simp [hstep, Except.bind] at h
    | ok next =>
      rw [hstep] at h
      exact ih h

theorem stepsToWrite_cases (path : String) : Location.stepsToWrite path = Location.steps path ∨
    ∃ steps, Location.stepsToWrite path = steps ++ ["."] := by
  unfold Location.stepsToWrite
  split
  · exact .inr ⟨_, rfl⟩
  · exact .inl rfl

/-- What was written to a path is read from it. -/
theorem read_of_write {f' : Folder} (h : f.write path bytes = .ok f') : f'.read path = .ok bytes := by
  obtain ⟨l, hlocate, hl, rfl⟩ := write_eq_ok_iff.1 h
  have hsteps : Location.stepsToWrite path = Location.steps path := by
    refine (stepsToWrite_cases path).resolve_right ?_
    rintro ⟨steps, hsteps⟩
    rw [hsteps] at hlocate
    obtain ⟨-, -, -, hfollow⟩ := locate_eq_ok_iff.1 hlocate
    exact hl (directory_of_follow_dot hfollow)
  rw [hsteps] at hlocate
  have hfind : (f.put l (.file bytes)).find path = .ok (some (.file bytes)) := by
    rw [find, locate_put hl _ hlocate, ← node?_put f l (.file bytes) (names_ne_nil hl)]
    rfl
  rw [read, hfind]

end Calibration.Folder
