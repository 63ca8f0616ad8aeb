import Calibration.Json.Decode
import Calibration.Proofs.Filing
import Calibration.Proofs.Json.RoundTrip

/-! # Values in JSON and back

Lists, maps and integers are decoded from what they were encoded as, if their parts are. What is decoded at
all has come from some part of the text.
-/
namespace Calibration

theorem mapM_map_eq_some {α β γ : Type} {as : List α} {f : α → β} {item? : β → Option γ} {g : α → γ}
    (h : ∀ a ∈ as, item? (f a) = some (g a)) : (as.map f).mapM item? = some (as.map g) := by
  induction as with
  | nil => rfl
  | cons a as ih =>
    obtain ⟨ha, has⟩ := List.forall_mem_cons.1 h
    rw [List.map_cons, List.mapM_cons, ha, ih has]
    rfl

theorem exists_mem_of_mapM_eq_some {α β : Type} {as : List α} {item? : α → Option β} {bs : List β}
    (h : as.mapM item? = some bs) : ∀ b ∈ bs, ∃ a ∈ as, item? a = some b := by
  induction as generalizing bs with
  | nil =>
    cases h
    exact nofun
  | cons a as ih =>
    rw [List.mapM_cons] at h
    obtain ⟨b, hb, h⟩ := Option.bind_eq_some_iff.1 h
    obtain ⟨rest, hrest, h⟩ := Option.bind_eq_some_iff.1 h
    cases h
    intro x hx
    rcases List.mem_cons.1 hx with rfl | hx
    · exact ⟨a, List.mem_cons_self, hb⟩
    · obtain ⟨y, hy, hxy⟩ := ih hrest x hx
      exact ⟨y, List.mem_cons_of_mem _ hy, hxy⟩

namespace Json

theorem toInt64?_toInt (n : Int64) : toInt64? (.int n.toInt) = some n := checkedWord?_toInt n

theorem toFloat?_float {x : Float} (h : x.isFinite = true) : toFloat? (.float x) = some x := if_pos h

theorem toList?_map {α γ : Type} {as : List α} {f : α → Json} {item? : Json → Option γ} {g : α → γ}
    (h : ∀ a ∈ as, item? (f a) = some (g a)) :
    toList? item? (.arr (as.map f)) = some (as.map g) := mapM_map_eq_some h

theorem toList?_map_self {α : Type} {as : List α} {f : α → Json} {item? : Json → Option α}
    (h : ∀ a ∈ as, item? (f a) = some a) : toList? item? (.arr (as.map f)) = some as := by
  rw [toList?_map (g := id) h, List.map_id]

theorem members?_object (members : List (String × Json)) :
    (object members).members? = some members := by
  have hmap : (members.map fun m => (some m.1, m.2)).mapM
      (fun m : Option String × Json => m.1.map fun key => (key, m.2)) = some (members.map id) :=
    mapM_map_eq_some fun _ _ => rfl
  rw [List.map_id] at hmap
  exact hmap

theorem toMap?_object {α β : Type} {value? : Json → Option β} {f : α → Json} {g : α → β} {m : NameMap α}
    (h : ∀ e ∈ m.entries, value? (f e.2) = some (g e.2)) :
    toMap? value? (object (m.entries.map fun e => (e.1, f e.2))) = some (m.mapValues g) := by
  have hentries : (m.entries.map fun e => (e.1, f e.2)).mapM
      (fun e => (value? e.2).map fun a => (e.1, a)) = some (m.mapValues g).entries := by
    refine mapM_map_eq_some fun e he => ?_
    rw [h e he]
    rfl
  unfold toMap?
  rw [members?_object]
  simp only [Option.bind_eq_bind, Option.bind_some, hentries, NameMap.ofList_entries, Option.pure_def]

/-! What is decoded comes from some part of the text. -/

theorem isFinite_of_toFloat? {j : Json} {x : Float} (h : toFloat? j = some x) :
    x.isFinite = true := by
  have hfinite {y : Float} (h : finite? y = some x) : x.isFinite = true := by
    unfold finite? at h
    split at h
    · next hy =>
      cases h
      exact hy
    · cases h
  cases j with
  | int n => exact hfinite h
  | float y => exact hfinite h
  | _ => cases h

theorem exists_of_toList? {α : Type} {item? : Json → Option α} {j : Json} {as : List α}
    (h : toList? item? j = some as) : ∀ a ∈ as, ∃ j, item? j = some a := by
  cases j with
  | arr items =>
    intro a ha
    obtain ⟨j, -, hj⟩ := exists_mem_of_mapM_eq_some h a ha
    exact ⟨j, hj⟩
  | _ => cases h

theorem exists_of_required {α : Type} {value? : Json → Option α} {field : Option Json} {a : α}
    (h : required value? field = some a) : ∃ j, value? j = some a := by
  obtain ⟨j, -, hj⟩ := Option.bind_eq_some_iff.1 h
  exact ⟨j, hj⟩

theorem exists_of_withDefault {α : Type} {missing : α} {value? : Json → Option α}
    {field : Option Json} {a : α} (h : withDefault missing value? field = some a) :
    a = missing ∨ ∃ j, value? j = some a := by
  cases field with
  | none =>
    cases h
    exact .inl rfl
  | some j => exact .inr ⟨j, h⟩

theorem exists_of_toMap? {α : Type} {value? : Json → Option α} {j : Json} {m : NameMap α}
    (h : toMap? value? j = some m) : ∀ e ∈ m.entries, ∃ j, value? j = some e.2 := by
  obtain ⟨members, -, h⟩ := Option.bind_eq_some_iff.1 h
  obtain ⟨entries, hentries, h⟩ := Option.bind_eq_some_iff.1 h
  cases h
  intro e he
  have hlookup : (NameMap.ofList entries).get? e.1 = some e.2 := NameMap.get?_eq_some_iff.2 he
  rw [NameMap.ofList_eq_insertAll, NameMap.get?_insertAll, NameMap.get?_empty, Option.or_none] at hlookup
  obtain ⟨before, after, hsplit, -⟩ := List.lookup_eq_some_iff.1 hlookup
  have hmem : e ∈ entries := by
    rw [← List.mem_reverse, hsplit]
    exact List.mem_append_right _ List.mem_cons_self
  obtain ⟨m, -, hm⟩ := exists_mem_of_mapM_eq_some hentries e hmem
  obtain ⟨a, ha, rfl⟩ := Option.map_eq_some_iff.1 hm
  exact ⟨m.2, ha⟩

/-! What is encoded is storable. -/

theorem Storable.ofInt64 (n : Int64) : Storable (.int n.toInt) := by
  have hlow := n.le_toInt
  have hhigh := n.toInt_lt
  exact .int (by omega) (by omega)

theorem Storable.array {α : Type} {as : List α} {f : α → Json} (h : ∀ a ∈ as, Storable (f a)) :
    Storable (.arr (as.map f)) := by
  refine .arr fun j hj => ?_
  obtain ⟨a, ha, rfl⟩ := List.mem_map.1 hj
  exact h a ha

theorem Storable.object {members : List (String × Json)} (h : ∀ m ∈ members, Storable m.2) :
    Storable (.object members) := by
  refine .obj (fun m hm => ?_) fun m hm => ?_
  · obtain ⟨m, -, rfl⟩ := List.mem_map.1 hm
    rfl
  · obtain ⟨named, hnamed, rfl⟩ := List.mem_map.1 hm
    exact h named hnamed

end Json
end Calibration
