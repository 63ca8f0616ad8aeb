import Calibration.Proofs.Plan.Edits

/-! # Boundaries between storage widths

A convolution or product is told of the eight-bit values that leave it towards other operations and of the
four-bit values that enter it from them. Each is a question about both ends of an edge and about one store of
the table, and each decides two attributes of the operation. The types of the results are found on another
path; where both speak of one value they agree.
-/
namespace Calibration

variable (tables : Tables) (settings : Settings)

/-- Eight-bit values leave the convolution or product `op` of `f` under these parameters. -/
inductive OutputBoundary (f : Function) (op : Operation) : Affine → Prop
  | intro {r : Record} {p : Affine} (hc : OutputCrossing tables f op r)
    (hp : Affine.derive? (op.kind.range r settings.asymmetric).1
      (op.kind.range r settings.asymmetric).2 .int8 = some p) : OutputBoundary f op p

/-- Four-bit values enter the convolution or product `op` of `f` under these parameters. -/
inductive InputBoundary (f : Function) (op : Operation) : Affine → Prop
  | intro {kind : OpKind} {r : Record} {p : Affine} (hc : InputCrossing tables f op kind r)
    (hp : Affine.derive? (kind.range r settings.asymmetric).1 (kind.range r settings.asymmetric).2
      (if settings.asymmetric then .int4 else .int4Narrow) = some p) : InputBoundary f op p

variable {tables settings} {f : Function} {op : Operation}

/-- Of the operation that is entered only the first operand counts. -/
theorem InputBoundary.of_operand {op' : Operation} {p : Affine}
    (h : InputBoundary tables settings f op p) (hk : op'.kind = .conv ∨ op'.kind = .matMul)
    (hn : op'.results ≠ []) (ho : op.operands.head? = op'.operands.head?) :
    InputBoundary tables settings f op' p := by
  obtain ⟨⟨-, -, hoperand, hp, hpi, hpk, hr⟩, hderive⟩ := h
  exact .intro (.intro hk hn (ho ▸ hoperand) hp hpi hpk hr) hderive

theorem outputBoundary_iff {p : Affine} :
    (∃ name, .outputBoundary name p ∈ opFindings tables settings f op) ↔
      OutputBoundary tables settings f op p := by
  constructor
  · rintro ⟨name, h⟩
    cases made_of_mem h with
    | boundary hb =>
      cases hb with
      | output _ hc hp => exact .intro hc hp
  · rintro ⟨hc, hp⟩
    obtain ⟨name, hn⟩ := Option.isSome_iff_exists.1 hc.name?_isSome
    exact ⟨name, mem_of_made (.boundary (.output hn hc hp))⟩

theorem inputBoundary_iff {p : Affine} :
    (∃ name, .inputBoundary name p ∈ opFindings tables settings f op) ↔
      InputBoundary tables settings f op p := by
  constructor
  · rintro ⟨name, h⟩
    cases made_of_mem h with
    | boundary hb =>
      cases hb with
      | input _ hc hp => exact .intro hc hp
  · rintro ⟨hc, hp⟩
    obtain ⟨name, hn⟩ := Option.isSome_iff_exists.1 hc.name?_isSome
    exact ⟨name, mem_of_made (.boundary (.input hn hc hp))⟩

def Affine.attrs (p : Affine) (scaleKey zeroKey : String) : List (String × Attribute) :=
  [(scaleKey, .float p.scale), (zeroKey, .int p.zeroPoint)]

/-- All attributes that are set for an operation of `f`. -/
theorem mem_attrsSet_iff {key : String} {a : Attribute} :
    (key, a) ∈ attrsSet tables settings f op ↔
      (∃ p, OutputBoundary tables settings f op p ∧ (key, a) ∈ p.attrs outputScaleKey outputZeroKey) ∨
      (∃ p, InputBoundary tables settings f op p ∧ (key, a) ∈ p.attrs inputScaleKey inputZeroKey) ∨
      (∃ name vector, .weightScales name vector ∈ opFindings tables settings f op ∧
        (key, a) = (weightScaleKey, .floats vector.scales)) := by
  constructor
  · intro h
    obtain ⟨x, hx, h⟩ := List.mem_flatMap.1 h
    cases x with
    | outputBoundary name p => exact .inl ⟨p, outputBoundary_iff.1 ⟨name, hx⟩, h⟩
    | inputBoundary name p => exact .inr (.inl ⟨p, inputBoundary_iff.1 ⟨name, hx⟩, h⟩)
    | weightScales name vector => exact .inr (.inr ⟨name, vector, hx, List.mem_singleton.1 h⟩)
    | _ => cases h
  · rintro (⟨p, hp, h⟩ | ⟨p, hp, h⟩ | ⟨name, vector, hx, h⟩)
    · obtain ⟨name, hx⟩ := outputBoundary_iff.2 hp
      exact List.mem_flatMap.2 ⟨_, hx, h⟩
    · obtain ⟨name, hx⟩ := inputBoundary_iff.2 hp
      exact List.mem_flatMap.2 ⟨_, hx, h⟩
    · exact List.mem_flatMap.2 ⟨_, hx, List.mem_singleton.2 h⟩

/-- The keys are distinct, so each belongs to one boundary. -/
theorem mem_attrsSet_of_key (a : Attribute) :
    ((outputScaleKey, a) ∈ attrsSet tables settings f op ↔
      ∃ p, OutputBoundary tables settings f op p ∧ a = .float p.scale) ∧
    ((outputZeroKey, a) ∈ attrsSet tables settings f op ↔
      ∃ p, OutputBoundary tables settings f op p ∧ a = .int p.zeroPoint) ∧
    ((inputScaleKey, a) ∈ attrsSet tables settings f op ↔
      ∃ p, InputBoundary tables settings f op p ∧ a = .float p.scale) ∧
    ((inputZeroKey, a) ∈ attrsSet tables settings f op ↔
      ∃ p, InputBoundary tables settings f op p ∧ a = .int p.zeroPoint) := by
  simp [mem_attrsSet_iff, Affine.attrs, outputScaleKey, outputZeroKey, inputScaleKey, inputZeroKey,
    weightScaleKey]

/-- What a run does with one attribute of an operation: it sets the values for which `P` holds, and keeps
what was there if it holds for none. -/
structure Plan.Decides (plan : Plan) (i j : Nat) (key : String) (P : Attribute → Prop)
    (op op' : Operation) : Prop where
  given (a : Attribute) : plan.Gives i j key a ↔ P a
  after (a : Attribute) : P a → op'.attrs.get? key = some a
  kept : (∀ a, ¬P a) → op'.attrs.get? key = op.attrs.get? key

namespace Module
variable {m m' : Module} {s : Summary} {plan : Plan}

theorem CalibratedBy.decides (h : m.CalibratedBy tables settings plan m') {i j : Nat}
    (hat : m.OpAt i j f op) {key : String} {P : Attribute → Prop}
    (hP : ∀ a, (key, a) ∈ attrsSet tables settings f op ↔ P a) :
    plan.Decides i j key P op (op.calibrated tables settings f) := by
  have hgiven (a : Attribute) : plan.Gives i j key a ↔ P a := (h.gives_iff_at hat).trans (hP a)
  exact ⟨hgiven, fun a ha => h.get?_of_gives hat ((hgiven a).2 ha),
    fun hnone => h.get?_of_not_gives hat fun a ha => hnone a ((hgiven a).1 ha)⟩

/-- A run sets the attributes of a boundary exactly where there is one, to its parameters, and leaves them
alone everywhere else. -/
theorem boundary_attributes (h : m.annotate tables settings = (m', .ok s)) :
    ∃ plan, m.CalibratedBy tables settings plan m' ∧
      ∀ i j f op, m.OpAt i j f op → ∃ f' op', m'.OpAt i j f' op' ∧
        plan.Decides i j outputScaleKey
          (fun a => ∃ p, OutputBoundary tables settings f op p ∧ a = .float p.scale) op op' ∧
        plan.Decides i j outputZeroKey
          (fun a => ∃ p, OutputBoundary tables settings f op p ∧ a = .int p.zeroPoint) op op' ∧
        plan.Decides i j inputScaleKey
          (fun a => ∃ p, InputBoundary tables settings f op p ∧ a = .float p.scale) op op' ∧
        plan.Decides i j inputZeroKey
          (fun a => ∃ p, InputBoundary tables settings f op p ∧ a = .int p.zeroPoint) op op' := by
  obtain ⟨plan, hplan⟩ := exists_calibratedBy h
  refine ⟨plan, hplan, fun i j f op hat => ⟨_, _, hplan.opAt hat, ?_, ?_, ?_, ?_⟩⟩
  · exact hplan.decides hat fun a => (mem_attrsSet_of_key a).1
  · exact hplan.decides hat fun a => (mem_attrsSet_of_key a).2.1
  · exact hplan.decides hat fun a => (mem_attrsSet_of_key a).2.2.1
  · exact hplan.decides hat fun a => (mem_attrsSet_of_key a).2.2.2

def crossingOp (kind : OpKind) (operands : List String) (name : String) : Operation :=
  ⟨kind, operands, [⟨name, .tensor ⟨[1, 4], .f32⟩⟩], .empty⟩

def crossingMain : Function :=
  { name := "main"
    ops := [crossingOp .input [] "x", crossingOp (.inferable "Relu") ["x"] "r",
      crossingOp .conv ["r"] "c", crossingOp .matMul ["r"] "d", crossingOp .sigmoid ["c"] "s",
      crossingOp (.inferable "Add") ["s", "d"] "e"]
    outputs := ["e"]
    outputTypes := [] }

def crossing : Module := ⟨"net", .topF32, [crossingMain]⟩

def crossingTables : Tables :=
  { default := .ofList [("x", ⟨1, -1, 1⟩), ("r", ⟨2, 0, 2⟩), ("c", ⟨4, -4, 3⟩), ("s", ⟨1, 0, 1⟩),
      ("e", ⟨8, -8, 8⟩)]
    int4 := .ofList [("r", ⟨1.5, 0, 1.5⟩), ("d", ⟨3, -1, 3⟩)]
    channelScales := .empty }

theorem annotate_crossing_snd :
    (crossing.annotate crossingTables ⟨true, .int8⟩).2 = .ok ⟨6, 0, 1, 2⟩ := by
  decide +kernel

theorem annotate_crossing : crossing.annotate crossingTables ⟨true, .int8⟩ =
    ((crossing.annotate crossingTables ⟨true, .int8⟩).1, .ok ⟨6, 0, 1, 2⟩) :=
  run_eq_of_snd annotate_crossing_snd

theorem crossing_conv : crossing.OpAt 0 2 crossingMain (crossingOp .conv ["r"] "c") := ⟨rfl, rfl⟩

theorem crossing_product : crossing.OpAt 0 3 crossingMain (crossingOp .matMul ["r"] "d") := ⟨rfl, rfl⟩

theorem outputBoundary_crossing : OutputBoundary crossingTables ⟨true, .int8⟩ crossingMain
    (crossingOp .conv ["r"] "c") ⟨7 / 255, 18, .int8⟩ :=
  have hc : OutputCrossing crossingTables crossingMain (crossingOp .conv ["r"] "c") ⟨4, -4, 3⟩ :=
    @OutputCrossing.intro _ _ _ "c" (crossingOp .sigmoid ["c"] "s") _ (.inl rfl) rfl rfl
      (List.mem_of_getElem? (i := 4) rfl) List.mem_cons_self ⟨nofun, nofun⟩
  .intro hc (by decide +kernel)

theorem inputBoundary_crossing {kind : OpKind} {name : String} (hk : kind = .conv ∨ kind = .matMul) :
    InputBoundary crossingTables ⟨true, .int8⟩ crossingMain (crossingOp kind ["r"] name)
      ⟨1.5 / 15, -8, .int4⟩ :=
  have hc : InputCrossing crossingTables crossingMain (crossingOp kind ["r"] name)
      (.inferable "Relu") ⟨1.5, 0, 1.5⟩ :=
    @InputCrossing.intro _ _ _ "r" (crossingOp (.inferable "Relu") ["x"] "r") _ hk nofun rfl
      (Function.producer?_eq_some_iff.1 rfl) nofun ⟨nofun, nofun⟩ rfl
  .intro hc (by decide +kernel)

/-- The product is left at four bits. -/
theorem typed_crossing : .typed 0 "d" .f32 ⟨.int4, -1, 3, some ⟨4 / 15, -4, .int4⟩⟩ ∈
    opFindings crossingTables ⟨true, .int8⟩ crossingMain (crossingOp .matMul ["r"] "d") :=
  mem_of_made (@Made.typed _ _ _ _ 0 ⟨"d", .tensor ⟨[1, 4], .f32⟩⟩ ⟨[1, 4], .f32⟩ .int4 ⟨3, -1, 3⟩ _
    rfl rfl rfl rfl rfl (by decide +kernel))

/-- The convolution is left over a boundary, and the product is entered over one but not left. -/
theorem boundary_attributes_crossing : ∃ m' plan,
    crossing.CalibratedBy crossingTables ⟨true, .int8⟩ plan m' ∧
    (∃ f' op', m'.OpAt 0 2 f' op' ∧
      plan.Gives 0 2 outputScaleKey (.float (7 / 255)) ∧
      op'.attrs.get? outputZeroKey = some (.int 18)) ∧
    ∃ f' op', m'.OpAt 0 3 f' op' ∧ op'.attrs.get? outputScaleKey = none ∧
      op'.attrs.get? inputScaleKey = some (.float (1.5 / 15)) := by
  obtain ⟨plan, hplan, hall⟩ := boundary_attributes annotate_crossing
  have hnone (p : Affine) : ¬OutputBoundary crossingTables ⟨true, .int8⟩ crossingMain
      (crossingOp .matMul ["r"] "d") p := by
    rintro ⟨⟨-, hn, hr, -⟩, -⟩
    cases hn
    cases hr
  obtain ⟨f₁, op₁, hat₁, hscale₁, hzero₁, -, -⟩ := hall 0 2 _ _ crossing_conv
  obtain ⟨f₂, op₂, hat₂, hscale₂, -, hin₂, -⟩ := hall 0 3 _ _ crossing_product
  exact ⟨_, plan, hplan,
    ⟨f₁, op₁, hat₁, (hscale₁.given _).2 ⟨_, outputBoundary_crossing, rfl⟩,
      hzero₁.after _ ⟨_, outputBoundary_crossing, rfl⟩⟩,
    f₂, op₂, hat₂, hscale₂.kept fun a ⟨p, h, _⟩ => hnone p h,
    hin₂.after _ ⟨_, inputBoundary_crossing (.inr rfl), rfl⟩⟩

end Module

def Plan.GivesOneOf (plan : Plan) (i j : Nat) (keys : List String) : Prop :=
  ∃ key ∈ keys, ∃ a, plan.Gives i j key a

def Plan.GivesAll (plan : Plan) (i j : Nat) (attrs : List (String × Attribute)) (op' : Operation) :
    Prop :=
  ∀ e ∈ attrs, plan.Gives i j e.1 e.2 ∧ op'.attrs.get? e.1 = some e.2

namespace Module
variable {m m' : Module} {s : Summary} {plan : Plan}

section
variable (h : m.CalibratedBy tables settings plan m') {i j : Nat} (hat : m.OpAt i j f op)
include h hat

/-- Both attributes of a boundary are set where there is one, and neither elsewhere. -/
theorem CalibratedBy.givesOneOf_iff {scaleKey zeroKey : String} {B : Affine → Prop}
    (hscale : ∀ a, (scaleKey, a) ∈ attrsSet tables settings f op ↔ ∃ p, B p ∧ a = .float p.scale)
    (hzero : ∀ a, (zeroKey, a) ∈ attrsSet tables settings f op ↔ ∃ p, B p ∧ a = .int p.zeroPoint) :
    plan.GivesOneOf i j [scaleKey, zeroKey] ↔ ∃ p, B p := by
  constructor
  · rintro ⟨key, hkey, a, ha⟩
    have ha := (h.gives_iff_at hat).1 ha
    rcases List.mem_pair.1 hkey with rfl | rfl
    · obtain ⟨p, hp, -⟩ := (hscale a).1 ha
      exact ⟨p, hp⟩
    · obtain ⟨p, hp, -⟩ := (hzero a).1 ha
      exact ⟨p, hp⟩
  · rintro ⟨p, hp⟩
    exact ⟨scaleKey, List.mem_cons_self, _, (h.gives_iff_at hat).2 ((hscale _).2 ⟨p, hp, rfl⟩)⟩

theorem CalibratedBy.givesOneOf_output_iff :
    plan.GivesOneOf i j [outputScaleKey, outputZeroKey] ↔
      ∃ p, OutputBoundary tables settings f op p :=
  h.givesOneOf_iff hat (fun a => (mem_attrsSet_of_key a).1) fun a => (mem_attrsSet_of_key a).2.1

theorem CalibratedBy.givesOneOf_input_iff :
    plan.GivesOneOf i j [inputScaleKey, inputZeroKey] ↔
      ∃ p, InputBoundary tables settings f op p :=
  h.givesOneOf_iff hat (fun a => (mem_attrsSet_of_key a).2.2.1) fun a => (mem_attrsSet_of_key a).2.2.2

theorem CalibratedBy.givesAll {attrs : List (String × Attribute)}
    (hattrs : ∀ e ∈ attrs, e ∈ attrsSet tables settings f op) :
    plan.GivesAll i j attrs (op.calibrated tables settings f) := by
  intro e he
  have hgives := (h.gives_iff_at hat).2 (hattrs e he)
  exact ⟨hgives, h.get?_of_gives hat hgives⟩

theorem CalibratedBy.givesAll_output {p : Affine} (hp : OutputBoundary tables settings f op p) :
    plan.GivesAll i j (p.attrs outputScaleKey outputZeroKey) (op.calibrated tables settings f) :=
  h.givesAll hat fun _ he => mem_attrsSet_iff.2 (.inl ⟨p, hp, he⟩)

theorem CalibratedBy.givesAll_input {p : Affine} (hp : InputBoundary tables settings f op p) :
    plan.GivesAll i j (p.attrs inputScaleKey inputZeroKey) (op.calibrated tables settings f) :=
  h.givesAll hat fun _ he => mem_attrsSet_iff.2 (.inr (.inl ⟨p, hp, he⟩))

end

end Module

/-- With eight-bit storage the first result is given the parameters of the boundary. -/
theorem OutputBoundary.calibrated_result {p : Affine} (hp : OutputBoundary tables settings f op p)
    (h8 : settings.precision = .int8) {v : Value} {t : TensorType} (hv : op.results.head? = some v)
    (ht : v.type = .tensor t) (hd : t.element.isDiscrete = false) :
    ∃ v' min max, (op.calibrated tables settings f).results.head? = some v' ∧
      v'.type = .tensor ⟨t.shape, .calibrated ⟨.int8, min, max, some p⟩⟩ := by
  obtain @⟨r, _, @⟨name, _, _, hk, hn, hr, -⟩, hp⟩ := hp
  have hname : v.name = name := by
    rw [Operation.name?, hv] at hn
    exact Option.some.inj hn
  have hcalibrated : op.kind.isCalibrated = true :=
    OpKind.isCalibrated_of_heavy hk
  have hr : tables.default.get? v.name = some r := hname ▸ hr
  have htype : settings.typeFor? op.kind .default r =
      some ⟨.int8, (op.kind.range r settings.asymmetric).1, (op.kind.range r settings.asymmetric).2,
        some p⟩ := by
    rw [Settings.typeFor?, Settings.storageFor, h8]
    exact Option.map_eq_some_iff.2 ⟨p, hp, rfl⟩
  refine ⟨v.calibrated tables settings op.kind, (op.kind.range r settings.asymmetric).1,
    (op.kind.range r settings.asymmetric).2, ?_, ?_⟩
  · rw [op.calibrated_results f, if_pos hcalibrated, List.head?_map, hv]
    rfl
  · rw [Value.calibrated_of_lookup ht hd (Tables.lookup_of_default hr) htype]

/-- A result at four bits has no default record, and a boundary is made from one. -/
theorem not_outputBoundary_of_int4 {name : String} {old : ElementType} {type : CalibratedType}
    (hx : .typed 0 name old type ∈ opFindings tables settings f op) (hs : type.storage = .int4)
    (p : Affine) : ¬OutputBoundary tables settings f op p := by
  rintro ⟨⟨-, hn, hdefault, -⟩, -⟩
  cases made_of_mem hx with
  | @typed k v t source r type hk hv ht hd hr htype =>
    rw [Operation.name?, List.head?_eq_getElem?, hv] at hn
    cases hn
    rcases Tables.lookup_eq_some_iff.1 hr with ⟨rfl, -⟩ | ⟨-, -, hnone, -⟩
    · have hstorage : settings.precision.storage = .int4 :=
        (Settings.of_typeFor? htype).1.symm.trans hs
      cases h : settings.precision <;> simp [h, Precision.storage] at hstorage
    · rw [hdefault] at hnone
      cases hnone
  | boundary hb => cases hb

namespace Module
variable {m m' : Module} {s : Summary}

/-- Where a value has a boundary and a type they agree: with eight-bit storage their parameters are the
same, a value at four bits has no eight-bit boundary, and operations with one first operand are entered under
the same parameters. -/
theorem boundaries_agree_with_types (h : m.annotate tables settings = (m', .ok s)) :
    ∃ plan, m.CalibratedBy tables settings plan m' ∧
      (settings.precision = .int8 → ∀ i j f op v t, m.OpAt i j f op →
        plan.GivesOneOf i j [outputScaleKey, outputZeroKey] → op.results.head? = some v →
        v.type = .tensor t → t.element.isDiscrete = false →
        ∃ f' op' v' min max p, m'.OpAt i j f' op' ∧ op'.results.head? = some v' ∧
          v'.type = .tensor ⟨t.shape, .calibrated ⟨.int8, min, max, some p⟩⟩ ∧
          op'.attrs.get? outputScaleKey = some (.float p.scale) ∧
          op'.attrs.get? outputZeroKey = some (.int p.zeroPoint)) ∧
      (∀ i j type, plan.Types i j 0 type → type.storage = .int4 →
        ¬plan.GivesOneOf i j [outputScaleKey, outputZeroKey]) ∧
      (∀ i j k f op₁ op₂, m.OpAt i j f op₁ → m.OpAt i k f op₂ →
        op₁.kind = .conv ∨ op₁.kind = .matMul → op₂.kind = .conv ∨ op₂.kind = .matMul →
        op₁.results ≠ [] → op₂.results ≠ [] → op₁.operands.head? = op₂.operands.head? →
        ∃ f' op₁' op₂', m'.OpAt i j f' op₁' ∧ m'.OpAt i k f' op₂' ∧
          ((∃ p : Affine, plan.GivesAll i j (p.attrs inputScaleKey inputZeroKey) op₁' ∧
              plan.GivesAll i k (p.attrs inputScaleKey inputZeroKey) op₂') ∨
            ¬plan.GivesOneOf i j [inputScaleKey, inputZeroKey] ∧
              ¬plan.GivesOneOf i k [inputScaleKey, inputZeroKey])) := by
  obtain ⟨plan, hplan⟩ := exists_calibratedBy h
  refine ⟨plan, hplan, ?_, ?_, ?_⟩
  · intro h8 i j f op v t hat hgives hv ht hd
    obtain ⟨p, hp⟩ := (hplan.givesOneOf_output_iff hat).1 hgives
    obtain ⟨v', min, max, hv', ht'⟩ := hp.calibrated_result h8 hv ht hd
    have hall := hplan.givesAll_output hat hp
    exact ⟨_, _, v', min, max, p, hplan.opAt hat, hv', ht', (hall _ List.mem_cons_self).2,
      (hall _ (List.mem_cons_of_mem _ List.mem_cons_self)).2⟩
  · intro i j type htype hs hgives
    obtain ⟨f, op, hat, name, old, hx⟩ := hplan.types_iff.1 htype
    obtain ⟨p, hp⟩ := (hplan.givesOneOf_output_iff hat).1 hgives
    exact not_outputBoundary_of_int4 hx hs p hp
  · intro i j k f op₁ op₂ hat₁ hat₂ hk₁ hk₂ hn₁ hn₂ ho
    refine ⟨_, _, _, hplan.opAt hat₁, hplan.opAt hat₂, ?_⟩
    by_cases hp : ∃ p, InputBoundary tables settings f op₁ p
    · obtain ⟨p, hp⟩ := hp
      exact .inl ⟨p, hplan.givesAll_input hat₁ hp,
        hplan.givesAll_input hat₂ (hp.of_operand hk₂ hn₂ ho)⟩
    · refine .inr ⟨mt (hplan.givesOneOf_input_iff hat₁).1 hp, fun hgives => hp ?_⟩
      obtain ⟨p, hp₂⟩ := (hplan.givesOneOf_input_iff hat₂).1 hgives
      exact ⟨p, hp₂.of_operand hk₁ hn₁ ho.symm⟩

/-- The convolution has one map at its type and at its boundary, the product has four bits and no such
boundary, and both are entered under the same parameters. -/
theorem boundaries_agree_with_types_crossing : ∃ m' plan,
    crossing.CalibratedBy crossingTables ⟨true, .int8⟩ plan m' ∧
    (∃ f' op' v' min max p, m'.OpAt 0 2 f' op' ∧ op'.results.head? = some v' ∧
      v'.type = .tensor ⟨[1, 4], .calibrated ⟨.int8, min, max, some p⟩⟩ ∧
      op'.attrs.get? outputScaleKey = some (.float p.scale) ∧
      op'.attrs.get? outputZeroKey = some (.int p.zeroPoint)) ∧
    (∃ type, plan.Types 0 3 0 type ∧ type.storage = .int4 ∧
      ¬plan.GivesOneOf 0 3 [outputScaleKey, outputZeroKey]) ∧
    ∃ f' op₁' op₂', m'.OpAt 0 2 f' op₁' ∧ m'.OpAt 0 3 f' op₂' ∧
      ∃ p : Affine, plan.GivesAll 0 2 (p.attrs inputScaleKey inputZeroKey) op₁' ∧
        plan.GivesAll 0 3 (p.attrs inputScaleKey inputZeroKey) op₂' := by
  obtain ⟨plan, hplan, h8, h4, hin⟩ := boundaries_agree_with_types annotate_crossing
  have hgives : plan.GivesOneOf 0 2 [outputScaleKey, outputZeroKey] :=
    (hplan.givesOneOf_output_iff crossing_conv).2 ⟨_, outputBoundary_crossing⟩
  have htype := hplan.types_iff.2 ⟨_, _, crossing_product, "d", .f32, typed_crossing⟩
  obtain ⟨f', op₁', op₂', hat₁, hat₂, h⟩ := hin 0 2 3 _ _ _ crossing_conv crossing_product (.inl rfl)
    (.inr rfl) nofun nofun rfl
  have hentered : plan.GivesOneOf 0 2 [inputScaleKey, inputZeroKey] :=
    (hplan.givesOneOf_input_iff crossing_conv).2 ⟨_, inputBoundary_crossing (.inl rfl)⟩
  exact ⟨_, plan, hplan, h8 rfl 0 2 _ _ _ _ crossing_conv hgives rfl rfl rfl,
    ⟨_, htype, rfl, h4 0 3 _ htype rfl⟩, f', op₁', op₂', hat₁, hat₂,
    h.resolve_right fun hnone => hnone.1 hentered⟩

end Module
end Calibration
