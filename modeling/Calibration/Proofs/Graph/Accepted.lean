import Calibration.Proofs.Graph.Stored

/-! # Graphs that are loaded

Whatever the form of an accepted text, records as objects or as arrays and with members that are missing or
unknown, a float in the module that it gives has passed the test for being finite, and an empty array has
been taken for one of integers. So such a module is stored and loaded again without any change.
-/
namespace Calibration
open Json

/-- An array of floats is read only if it is none of integers, so it is not empty. -/
theorem ne_nil_of_toFloats? {j : Json} {xs : List Float} (hints : toList? toInt64? j = none)
    (h : toList? toFloat? j = some xs) : xs ≠ [] := by
  rintro rfl
  cases j with
  | arr items =>
    cases items with
    | nil => cases hints
    | cons j items =>
      rw [toList?, List.mapM_cons] at h
      obtain ⟨x, -, h⟩ := Option.bind_eq_some_iff.1 h
      obtain ⟨rest, -, h⟩ := Option.bind_eq_some_iff.1 h
      cases h
  | _ => cases h

theorem Attribute.accepted {j : Json} {a : Attribute} (h : ofJson? j = some a) :
    AllFinite a.allFloats ∧ a ≠ .floats [] := by
  unfold ofJson? at h
  simp only [Option.orElse_eq_orElse, Option.orElse_eq_or, Option.or_eq_some_iff,
    Option.map_eq_some_iff, Option.map_eq_none_iff] at h
  rcases h with ⟨b, -, rfl⟩ | ⟨-, ⟨n, -, rfl⟩ | ⟨-, ⟨x, hx, rfl⟩ | ⟨-, ⟨ns, -, rfl⟩ |
    ⟨hints, ⟨xs, hxs, rfl⟩ | ⟨-, s, -, rfl⟩⟩⟩⟩⟩
  · exact ⟨nofun, nofun⟩
  · exact ⟨nofun, nofun⟩
  · refine ⟨fun y hy => ?_, nofun⟩
    cases List.mem_singleton.1 hy
    exact isFinite_of_toFloat? hx
  · exact ⟨nofun, nofun⟩
  · refine ⟨fun y hy => ?_, fun hempty => ne_nil_of_toFloats? hints hxs ?_⟩
    · obtain ⟨j, hj⟩ := exists_of_toList? hxs y hy
      exact isFinite_of_toFloat? hj
    · cases hempty
      rfl
  · exact ⟨nofun, nofun⟩

theorem Affine.accepted {j : Json} {p : Affine} (h : ofJson? j = some p) :
    p.scale.isFinite = true := by
  obtain ⟨fields, -, h⟩ := Option.bind_eq_some_iff.1 h
  split at h
  · obtain ⟨scale, hscale, h⟩ := Option.bind_eq_some_iff.1 h
    obtain ⟨zeroPoint, -, h⟩ := Option.bind_eq_some_iff.1 h
    obtain ⟨low, -, h⟩ := Option.bind_eq_some_iff.1 h
    obtain ⟨high, -, h⟩ := Option.bind_eq_some_iff.1 h
    cases h
    obtain ⟨j, hj⟩ := exists_of_required hscale
    exact isFinite_of_toFloat? hj
  · cases h

theorem CalibratedType.accepted {j : Json} {t : CalibratedType} (h : ofJson? j = some t) :
    AllFinite t.allFloats := by
  obtain ⟨fields, -, h⟩ := Option.bind_eq_some_iff.1 h
  split at h
  · obtain ⟨storage, -, h⟩ := Option.bind_eq_some_iff.1 h
    obtain ⟨min, hmin, h⟩ := Option.bind_eq_some_iff.1 h
    obtain ⟨max, hmax, h⟩ := Option.bind_eq_some_iff.1 h
    obtain ⟨params, hparams, h⟩ := Option.bind_eq_some_iff.1 h
    cases h
    obtain ⟨jmin, hmin⟩ := exists_of_required hmin
    obtain ⟨jmax, hmax⟩ := exists_of_required hmax
    have hscale : ∀ p, params = some p → p.scale.isFinite = true := by
      rintro p rfl
      rcases exists_of_withDefault hparams with hnone | ⟨j, hj⟩
      · cases hnone
      · unfold paramsOfJson? at hj
        split at hj
        · cases hj
        · obtain ⟨p, hp, hj⟩ := Option.map_eq_some_iff.1 hj
          cases hj
          exact Affine.accepted hp
    intro x hx
    rcases List.mem_cons.1 hx with rfl | hx
    · exact isFinite_of_toFloat? hmin
    · rcases List.mem_cons.1 hx with rfl | hx
      · exact isFinite_of_toFloat? hmax
      · obtain ⟨p, hp, rfl⟩ := Option.map_eq_some_iff.1 (Option.mem_toList.1 hx)
        exact hscale p hp
  · cases h

theorem ElementType.accepted {j : Json} {e : ElementType} (h : ofJson? j = some e) :
    AllFinite e.allFloats := by
  cases e with
  | calibrated t =>
    obtain ⟨⟨name, held⟩, -, h⟩ := Option.bind_eq_some_iff.1 h
    -- Only one of the names brings a range with it.
    have hnamed (e : ElementType) (he : named? e held = some (.calibrated t)) : e = .calibrated t := by
      unfold named? at he
      split at he
      · exact Option.some.inj he
      · cases he
    dsimp only at h
    split at h
    all_goals first
      | cases hnamed _ h
      | cases h
      | skip
    obtain ⟨t', ht', h⟩ := Option.map_eq_some_iff.1 h
    cases h
    exact CalibratedType.accepted ht'
  | _ => exact nofun

theorem TensorType.accepted {j : Json} {t : TensorType} (h : ofJson? j = some t) :
    AllFinite t.element.allFloats := by
  obtain ⟨fields, -, h⟩ := Option.bind_eq_some_iff.1 h
  split at h
  · obtain ⟨shape, -, h⟩ := Option.bind_eq_some_iff.1 h
    obtain ⟨element, helement, h⟩ := Option.bind_eq_some_iff.1 h
    cases h
    obtain ⟨j, hj⟩ := exists_of_required helement
    exact ElementType.accepted hj
  · cases h

theorem ValueType.accepted {j : Json} {type : ValueType} (h : ofJson? j = some type) :
    AllFinite type.allFloats := by
  cases type with
  | none => exact nofun
  | tensor t =>
    obtain ⟨⟨name, held⟩, -, h⟩ := Option.bind_eq_some_iff.1 h
    dsimp only at h
    split at h
    · unfold named? at h
      split at h <;> cases h
    · obtain ⟨t', ht', h⟩ := Option.map_eq_some_iff.1 h
      cases h
      exact TensorType.accepted ht'
    · cases h

theorem Value.accepted {j : Json} {v : Value} (h : ofJson? j = some v) :
    AllFinite v.type.allFloats := by
  obtain ⟨fields, -, h⟩ := Option.bind_eq_some_iff.1 h
  split at h
  · obtain ⟨name, -, h⟩ := Option.bind_eq_some_iff.1 h
    obtain ⟨type, htype, h⟩ := Option.bind_eq_some_iff.1 h
    cases h
    obtain ⟨j, hj⟩ := exists_of_required htype
    exact ValueType.accepted hj
  · cases h

theorem Operation.accepted {j : Json} {op : Operation} (h : ofJson? j = some op) :
    AllFinite op.allFloats ∧ .floats [] ∉ op.attributes := by
  obtain ⟨fields, -, h⟩ := Option.bind_eq_some_iff.1 h
  split at h
  · obtain ⟨kind, -, h⟩ := Option.bind_eq_some_iff.1 h
    obtain ⟨operands, -, h⟩ := Option.bind_eq_some_iff.1 h
    obtain ⟨results, hresults, h⟩ := Option.bind_eq_some_iff.1 h
    obtain ⟨attrs, hattrs, h⟩ := Option.bind_eq_some_iff.1 h
    cases h
    have haccepted : ∀ a ∈ attrs.entries.map Prod.snd, AllFinite a.allFloats ∧ a ≠ .floats [] := by
      intro a ha
      obtain ⟨e, he, rfl⟩ := List.mem_map.1 ha
      rcases exists_of_withDefault hattrs with rfl | ⟨j, hj⟩
      · cases he
      · obtain ⟨j, hj⟩ := exists_of_toMap? hj e he
        exact Attribute.accepted hj
    obtain ⟨jresults, hresults⟩ := exists_of_required hresults
    refine ⟨allFinite_append (allFinite_flatMap fun v hv => ?_)
      (allFinite_flatMap fun a ha => (haccepted a ha).1), fun hempty => (haccepted _ hempty).2 rfl⟩
    obtain ⟨j, hj⟩ := exists_of_toList? hresults v hv
    exact Value.accepted hj
  · cases h

theorem Function.accepted {j : Json} {f : Function} (h : ofJson? j = some f) :
    AllFinite f.allFloats ∧ .floats [] ∉ f.attributes := by
  obtain ⟨fields, -, h⟩ := Option.bind_eq_some_iff.1 h
  split at h
  · obtain ⟨name, -, h⟩ := Option.bind_eq_some_iff.1 h
    obtain ⟨ops, hops, h⟩ := Option.bind_eq_some_iff.1 h
    obtain ⟨outputs, -, h⟩ := Option.bind_eq_some_iff.1 h
    obtain ⟨types, htypes, h⟩ := Option.bind_eq_some_iff.1 h
    cases h
    obtain ⟨jops, hops⟩ := exists_of_required hops
    have haccepted : ∀ op ∈ ops, AllFinite op.allFloats ∧ .floats [] ∉ op.attributes := by
      intro op hop
      obtain ⟨j, hj⟩ := exists_of_toList? hops op hop
      exact Operation.accepted hj
    refine ⟨allFinite_append (allFinite_flatMap fun op hop => (haccepted op hop).1)
      (allFinite_flatMap fun type ht => ?_), fun hempty => ?_⟩
    · rcases exists_of_withDefault htypes with rfl | ⟨j, hj⟩
      · cases ht
      · obtain ⟨j, hj⟩ := exists_of_toList? hj type ht
        exact ValueType.accepted hj
    · obtain ⟨op, hop, hempty⟩ := List.mem_flatMap.1 hempty
      exact (haccepted op hop).2 hempty
  · cases h

namespace Module

theorem accepted {j : Json} {m : Module} (h : ofJson? j = some m) :
    AllFinite m.allFloats ∧ .floats [] ∉ m.attributes := by
  obtain ⟨fields, -, h⟩ := Option.bind_eq_some_iff.1 h
  split at h
  · obtain ⟨name, -, h⟩ := Option.bind_eq_some_iff.1 h
    obtain ⟨state, -, h⟩ := Option.bind_eq_some_iff.1 h
    obtain ⟨functions, hfunctions, h⟩ := Option.bind_eq_some_iff.1 h
    cases h
    obtain ⟨j, hfunctions⟩ := exists_of_required hfunctions
    have haccepted : ∀ f ∈ functions, AllFinite f.allFloats ∧ .floats [] ∉ f.attributes := by
      intro f hf
      obtain ⟨j, hj⟩ := exists_of_toList? hfunctions f hf
      exact Function.accepted hj
    refine ⟨allFinite_flatMap fun f hf => (haccepted f hf).1, fun hempty => ?_⟩
    obtain ⟨f, hf, hempty⟩ := List.mem_flatMap.1 hempty
    exact (haccepted f hf).2 hempty
  · cases h

theorem accepted_of_ofText? {text : String} {m : Module} (h : ofText? text = some m) :
    AllFinite m.allFloats ∧ .floats [] ∉ m.attributes := by
  obtain ⟨j, -, hj⟩ := Option.bind_eq_some_iff.1 h
  exact accepted hj

theorem ofText?_toText {m : Module} (h : AllFinite m.allFloats) :
    ofText? m.toText = some m.asStored := by
  have hblanks : ∀ c ∈ "".toList, Json.Token.isSpace c = true := by simp
  have happend := ofText?_toText_append h hblanks
  rwa [String.append_empty] at happend

/-- A module with finite floats is loaded from its text, with empty arrays of integers for those of
floats, which serve the same otherwise. What has been loaded is loaded again as it is. -/
theorem text_round_trip :
    (∀ m : Module, AllFinite m.allFloats → ofText? m.toText = some m.asStored) ∧
    (∀ a : Attribute, a.asStored = (if a = .floats [] then .ints [] else a) ∧
      a.asStored.asBool? = a.asBool? ∧ a.asStored.asFloat? = a.asFloat? ∧
      a.asStored.asInt? = a.asInt? ∧ a.asStored.asFloats? = a.asFloats?) ∧
    (∀ text m, ofText? text = some m → AllFinite m.allFloats ∧ .floats [] ∉ m.attributes ∧
      ofText? m.toText = some m) := by
  refine ⟨fun m => ofText?_toText, fun a => ⟨?_, a.asStored_readings⟩, fun text m h => ?_⟩
  · by_cases ha : a = .floats []
    · rw [if_pos ha, ha]
      rfl
    · rw [if_neg ha, Attribute.asStored_of_ne ha]
  · obtain ⟨hfinite, hempty⟩ := accepted_of_ofText? h
    have hload := ofText?_toText hfinite
    rw [asStored_eq_self hempty] at hload
    exact ⟨hfinite, hempty, hload⟩

def scaled : Module :=
  { name := "net", state := .topCalibrated
    functions := [{
      name := "main"
      ops := [⟨.conv, [], [⟨"y", .tensor ⟨[-1, 3], .calibrated ⟨.bf16, -0.5, 1, none⟩⟩⟩],
        .ofList [("pads", .floats []), ("scale", .floats [2, 0.1])]⟩]
      outputs := []
      outputTypes := [] }] }

/-- The empty array of `scaled` changes, and a module written as the array of its fields does not. -/
theorem text_round_trip_scaled :
    ofText? scaled.toText = some scaled.asStored ∧ scaled.asStored ≠ scaled ∧
    ∃ m, ofText? "[\"net\", \"TOP_F32\", []]" = some m ∧ ofText? m.toText = some m := by
  have hfinite : AllFinite scaled.allFloats := by decide +kernel
  have hchanged : scaled.asStored ≠ scaled := by decide +kernel
  have htext : ofText? "[\"net\", \"TOP_F32\", []]" = some ⟨"net", .topF32, []⟩ := by decide +kernel
  exact ⟨text_round_trip.1 scaled hfinite, hchanged, _, htext, (text_round_trip.2.2 _ _ htext).2.2⟩

end Module
end Calibration
