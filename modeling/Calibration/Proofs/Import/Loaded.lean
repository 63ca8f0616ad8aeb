import Calibration.Import.Job
import Calibration.Proofs.Plan.Floats

/-! # Loading what an import has written

A module that was loaded has finite floats, and so has a table. Where every scale that is derived from them
is finite as well, the text of the calibrated module is accepted, and it is that of the module itself unless
a weight was given an empty vector of scales.
-/
namespace Calibration
namespace Module

theorem attributes_asStored (m : Module) :
    m.asStored.attributes = m.attributes.map Attribute.asStored := by
  have hop (op : Operation) : op.asStored.attributes = op.attributes.map Attribute.asStored := by
    simp only [Operation.attributes, Operation.asStored, NameMap.mapValues, List.map_map]
    rfl
  have hf (f : Function) : f.asStored.attributes = f.attributes.map Attribute.asStored := by
    simp only [Function.attributes, Function.asStored, List.flatMap_map, List.map_flatMap, hop]
  simp only [attributes, asStored, List.flatMap_map, List.map_flatMap, hf]

theorem asStored_eq_self_iff {m : Module} : m.asStored = m ↔ .floats [] ∉ m.attributes := by
  constructor
  · intro h hempty
    rw [← h, attributes_asStored] at hempty
    obtain ⟨a, -, ha⟩ := List.mem_map.1 hempty
    unfold Attribute.asStored at ha
    split at ha
    · cases ha
    · next hne => exact hne ha
  · exact asStored_eq_self

theorem ofText?_moduleText {m : Module} (h : AllFinite m.allFloats) :
    ofText? (ImportJob.moduleText m) = some m.asStored := by
  have hblanks : ∀ c ∈ "\n".toList, Json.Token.isSpace c = true := List.all_eq_true.1 (by decide)
  rw [ImportJob.moduleText]
  exact ofText?_toText_append h hblanks

theorem readModule_moduleText {m : Module} (h : AllFinite m.allFloats) (path : String) :
    ImportJob.readModule path (.ok (ImportJob.moduleText m).toUTF8) = .ok m.asStored := by
  simp only [ImportJob.readModule, Except.bind, Folder.decodeText_toUTF8, ofText?_moduleText h]

/-- A loaded module that was calibrated with finite scales is loaded again from its text, and from the file
into which it was written. It is unchanged unless a weight was given an empty vector of scales, and then
nothing but such vectors has changed. -/
theorem calibrated_text_round_trip {text path : String} {source : Except FileFault ByteArray}
    {settings : Settings} {m m' : Module} {r : ImportReport} (hm : ofText? text = some m)
    (himport : m.importTable settings path source = (m', .ok r))
    (hscales : ∀ parsed, Table.parseFile path source = .ok parsed →
      AllFinite (m.derivedScales parsed.tables settings)) :
    ofText? m'.toText = some m'.asStored ∧
    (∀ out, ImportJob.readModule out (.ok (ImportJob.moduleText m').toUTF8) = .ok m'.asStored) ∧
    (∀ f ∈ m'.functions, ∀ op ∈ f.ops, ∀ key, op.attrs.get? key = some (.floats []) →
      op.kind = .weight ∧ key = weightScaleKey) ∧
    (m'.asStored = m' ↔ ∀ parsed, Table.parseFile path source = .ok parsed →
      [] ∉ m.attachedVectors parsed.tables settings) := by
  obtain ⟨hfinite, hempty⟩ := accepted_of_ofText? hm
  obtain ⟨parsed, hparsed, -, hannotate⟩ := importTable_eq_ok_iff.1 himport
  obtain ⟨-, -, -, hm'⟩ := annotate_eq_ok_iff.1 ⟨_, hannotate⟩
  have hfunctions : m'.functions = calibratedFunctions parsed.tables settings m.functions :=
    congrArg Module.functions hm'
  have hcalibrated : AllFinite m'.allFloats := by
    rw [allFloats, hfunctions]
    exact allFinite_flatMap (allFinite_calibratedFunctions (Table.finite_of_parseFile hparsed)
      hfinite (hscales parsed hparsed))
  have hattached : .floats [] ∈ m'.attributes ↔ [] ∈ m.attachedVectors parsed.tables settings := by
    rw [attributes, hfunctions]
    exact floats_nil_mem_calibratedFunctions hempty
  refine ⟨ofText?_toText hcalibrated, readModule_moduleText hcalibrated, ?_, ?_⟩
  · intro f hf op hop key hkey
    rw [hfunctions] at hf
    exact of_get?_eq_floats_nil hempty hf hop hkey
  · rw [asStored_eq_self_iff]
    constructor
    · intro h parsed' hparsed'
      cases hparsed.symm.trans hparsed'
      exact mt hattached.2 h
    · intro h
      exact mt hattached.1 (h parsed hparsed)

def productFile : String :=
  "x 1 -1 1\n#int4_th\ny 2 0 2\n#weight_scale\ny_weight 3 0.5 0.25 0.125\n"

theorem calibrated_text_round_trip_product : ∃ m' r,
    product.importTable ⟨true, .int8⟩ "t" (.ok productFile.toUTF8) = (m', .ok r) ∧
    ofText? m'.toText = some m' := by
  have hfloats : AllFinite product.allFloats := by decide +kernel
  have hstored : product.asStored = product := by decide +kernel
  have hm : ofText? product.toText = some product := hstored ▸ ofText?_toText hfloats
  have hfile : (Table.parseFile "t" (.ok productFile.toUTF8)).toOption.map Table.Parsed.tables =
      some (productTables [0.5, 0.25, 0.125]) := by
    decide +kernel
  have htables : ∀ parsed, Table.parseFile "t" (.ok productFile.toUTF8) = .ok parsed →
      parsed.tables = productTables [0.5, 0.25, 0.125] := by
    intro parsed h
    rw [h] at hfile
    exact Option.some.inj hfile
  have hscales : AllFinite (product.derivedScales (productTables [0.5, 0.25, 0.125])
      ⟨true, .int8⟩) := by
    decide +kernel
  have hvectors : product.attachedVectors (productTables [0.5, 0.25, 0.125]) ⟨true, .int8⟩ =
      [[0.5, 0.25, 0.125]] := by
    decide +kernel
  have hok : (product.importTable ⟨true, .int8⟩ "t" (.ok productFile.toUTF8)).2 =
      .ok ⟨⟨2, 1, 0, 0⟩, .complete⟩ := by
    decide +kernel
  have himport := run_eq_of_snd hok
  obtain ⟨hload, -, -, hsame⟩ := calibrated_text_round_trip hm himport fun parsed h => by
    rw [htables parsed h]
    exact hscales
  refine ⟨_, _, himport, hload.trans (congrArg some (hsame.2 fun parsed h => ?_))⟩
  rw [htables parsed h, hvectors]
  simp

def unshaped : Module :=
  { name := "net", state := .topF32
    functions := [{
      name := "main"
      ops := [⟨.weight, [], [⟨"w", .tensor ⟨[-1, 4], .f32⟩⟩], .empty⟩,
        ⟨.conv, ["w"], [⟨"c", .tensor ⟨[1, 3], .f32⟩⟩], .empty⟩]
      outputs := ["c"]
      outputTypes := [] }] }

def unshapedAfter (table : String) : Module :=
  (unshaped.importTable ⟨false, .int8⟩ "t" (.ok table.toUTF8)).1

/-- An empty vector is loaded as one of integers, and a scale that has overflowed is no float that a loaded
module can hold. -/
theorem calibrated_text_of_unshaped :
    ofText? unshaped.toText = some unshaped ∧
    (∃ m' r, unshaped.importTable ⟨false, .int8⟩ "t"
        (.ok "c 1 -1 1\n#weight_scale\nc_weight 0\n".toUTF8) = (m', .ok r) ∧
      ofText? m'.toText ≠ some m') ∧
    (∃ m' r, unshaped.importTable ⟨false, .int8⟩ "t" (.ok "c 1e308 -1e308 1e308\n".toUTF8) =
        (m', .ok r) ∧
      ofText? m'.toText ≠ some m') := by
  have hfloats : AllFinite unshaped.allFloats := by decide +kernel
  have hstored : unshaped.asStored = unshaped := by decide +kernel
  have hm : ofText? unshaped.toText = some unshaped := hstored ▸ ofText?_toText hfloats
  refine ⟨hm, ?_, ?_⟩
  · have hok : (unshaped.importTable ⟨false, .int8⟩ "t"
        (.ok "c 1 -1 1\n#weight_scale\nc_weight 0\n".toUTF8)).2 =
          .ok ⟨⟨1, 1, 0, 0⟩, .complete⟩ := by
      decide +kernel
    have hfinite : AllFinite (unshapedAfter "c 1 -1 1\n#weight_scale\nc_weight 0\n").allFloats := by
      decide +kernel
    have hchanged : (unshapedAfter "c 1 -1 1\n#weight_scale\nc_weight 0\n").asStored ≠
        unshapedAfter "c 1 -1 1\n#weight_scale\nc_weight 0\n" := by
      decide +kernel
    refine ⟨_, _, run_eq_of_snd hok, fun h => hchanged ?_⟩
    exact Option.some.inj ((ofText?_toText hfinite).symm.trans h)
  · have hok : (unshaped.importTable ⟨false, .int8⟩ "t"
        (.ok "c 1e308 -1e308 1e308\n".toUTF8)).2 = .ok ⟨⟨1, 0, 0, 0⟩, .complete⟩ := by
      decide +kernel
    have hinfinite : ¬AllFinite (unshapedAfter "c 1e308 -1e308 1e308\n").allFloats := by
      decide +kernel
    exact ⟨_, _, run_eq_of_snd hok, fun h => hinfinite (accepted_of_ofText? h).1⟩

end Module
end Calibration
