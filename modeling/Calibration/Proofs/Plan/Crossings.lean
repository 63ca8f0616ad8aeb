import Calibration.Plan.Basic

/-! # Where storage widths meet

Eight-bit values leave a convolution or product where something else reads them, and four-bit values enter it
where something else than an input has made them. Each crossing is a question about both ends of an edge and about
one store of the table. Whether the range of its record has a map is a question of its own.
-/
namespace Calibration

theorem OpKind.isConvOrMatMul_eq_false_iff {kind : OpKind} :
    kind.isConvOrMatMul = false ↔ kind ≠ .conv ∧ kind ≠ .matMul := by
  rw [← Bool.not_eq_true, isConvOrMatMul_iff, not_or]

theorem Operation.name?_isSome {op : Operation} : op.name?.isSome = true ↔ op.results ≠ [] := by
  cases h : op.results <;> simp [name?, h]

namespace Function
variable {f : Function} {op : Operation} {name : String}

def FirstProducer (f : Function) (name : String) (producer : Operation) : Prop :=
  ∃ before after, f.ops = before ++ producer :: after ∧ name ∈ producer.results.map Value.name ∧
    ∀ o ∈ before, name ∉ o.results.map Value.name

theorem producer?_eq_some_iff {producer : Operation} :
    f.producer? name = some producer ↔ f.FirstProducer name producer := by
  have hdefines (o : Operation) : o.defines name = true ↔ name ∈ o.results.map Value.name := by
    simp [Operation.defines]
  rw [producer?, List.find?_eq_some_iff_append]
  simp only [Bool.not_eq_true', ← Bool.not_eq_true, hdefines]
  constructor
  · rintro ⟨hp, before, after, hops, hbefore⟩
    exact ⟨before, after, hops, hp, hbefore⟩
  · rintro ⟨before, after, hops, hp, hbefore⟩
    exact ⟨hp, before, after, hops, hbefore⟩

theorem mem_users {user : Operation} :
    user ∈ f.users name ↔ user ∈ f.ops ∧ name ∈ user.operands := by
  simp [users, Operation.uses]

/-- The first operand of `op` and the kind of the operation that defines it, unless that is an input, a
convolution or a product. -/
def entry? (f : Function) (op : Operation) : Option (String × OpKind) := do
  let operand ← op.operands.head?
  let producer ← f.producer? operand
  if producer.kind = .input ∨ producer.kind.isConvOrMatMul then none
  else return (operand, producer.kind)

theorem entry?_eq_some_iff {operand : String} {kind : OpKind} :
    f.entry? op = some (operand, kind) ↔ op.operands.head? = some operand ∧
      ∃ producer, f.FirstProducer operand producer ∧ producer.kind = kind ∧ kind ≠ .input ∧
        kind ≠ .conv ∧ kind ≠ .matMul := by
  unfold entry?
  simp only [← producer?_eq_some_iff]
  constructor
  · intro h
    obtain ⟨operand', ho, h⟩ := Option.bind_eq_some_iff.1 h
    obtain ⟨producer, hp, h⟩ := Option.bind_eq_some_iff.1 h
    split at h
    · cases h
    · next hi =>
      cases h
      obtain ⟨hi, hpk⟩ := not_or.1 hi
      exact ⟨ho, producer, hp, rfl, hi,
        OpKind.isConvOrMatMul_eq_false_iff.1 (Bool.not_eq_true _ ▸ hpk)⟩
  · rintro ⟨ho, producer, hp, rfl, hi, hpk⟩
    simp [ho, hp, hi, OpKind.isConvOrMatMul_eq_false_iff.2 hpk]

end Function

variable (tables : Tables) (settings : Settings) (f : Function) (op : Operation)

/-- Values with this default record leave the convolution or product `op` of `f`. -/
inductive OutputCrossing : Record → Prop
  | intro {name : String} {user : Operation} {r : Record} (hk : op.kind = .conv ∨ op.kind = .matMul)
    (hn : op.name? = some name) (hr : tables.default.get? name = some r) (hu : user ∈ f.ops)
    (hread : name ∈ user.operands) (huk : user.kind ≠ .conv ∧ user.kind ≠ .matMul) :
    OutputCrossing r

/-- Values with this four-bit record enter the convolution or product `op` of `f` from an operation of this
kind. -/
inductive InputCrossing : OpKind → Record → Prop
  | intro {operand : String} {producer : Operation} {r : Record}
    (hk : op.kind = .conv ∨ op.kind = .matMul) (hn : op.results ≠ [])
    (ho : op.operands.head? = some operand) (hp : f.FirstProducer operand producer)
    (hpi : producer.kind ≠ .input) (hpk : producer.kind ≠ .conv ∧ producer.kind ≠ .matMul)
    (hr : tables.int4.get? operand = some r) :
    InputCrossing producer.kind r

inductive Boundary : Finding → Prop
  | output {name : String} {r : Record} {p : Affine} (hn : op.name? = some name)
    (hc : OutputCrossing tables f op r) (hp : op.kind.affine? r settings.asymmetric 8 = some p) :
    Boundary (.outputBoundary name p)
  | outputOverflow {r : Record} (hc : OutputCrossing tables f op r)
    (hp : op.kind.affine? r settings.asymmetric 8 = none) : Boundary .overflow
  | input {name : String} {kind : OpKind} {r : Record} {p : Affine} (hn : op.name? = some name)
    (hc : InputCrossing tables f op kind r) (hp : kind.affine? r settings.asymmetric 4 = some p) :
    Boundary (.inputBoundary name p)
  | inputOverflow {kind : OpKind} {r : Record} (hc : InputCrossing tables f op kind r)
    (hp : kind.affine? r settings.asymmetric 4 = none) : Boundary .overflow

variable {tables settings f op}

theorem OutputCrossing.unique {r r' : Record} (h : OutputCrossing tables f op r)
    (h' : OutputCrossing tables f op r') : r = r' := by
  obtain ⟨-, hn, hr, -, -, -⟩ := h
  obtain ⟨-, hn', hr', -, -, -⟩ := h'
  cases hn.symm.trans hn'
  exact Option.some.inj (hr.symm.trans hr')

theorem inputCrossing_iff {kind : OpKind} {r : Record} : InputCrossing tables f op kind r ↔
    (op.kind = .conv ∨ op.kind = .matMul) ∧ op.results ≠ [] ∧
      ∃ operand, f.entry? op = some (operand, kind) ∧ tables.int4.get? operand = some r := by
  constructor
  · rintro ⟨hk, hn, ho, hp, hpi, hpk, hr⟩
    exact ⟨hk, hn, _, Function.entry?_eq_some_iff.2 ⟨ho, _, hp, rfl, hpi, hpk⟩, hr⟩
  · rintro ⟨hk, hn, operand, hentry, hr⟩
    obtain ⟨ho, producer, hp, rfl, hpi, hpk⟩ := Function.entry?_eq_some_iff.1 hentry
    exact .intro hk hn ho hp hpi hpk hr

theorem InputCrossing.unique {kind kind' : OpKind} {r r' : Record}
    (h : InputCrossing tables f op kind r) (h' : InputCrossing tables f op kind' r') :
    kind = kind' ∧ r = r' := by
  obtain ⟨-, -, operand, hentry, hr⟩ := inputCrossing_iff.1 h
  obtain ⟨-, -, operand', hentry', hr'⟩ := inputCrossing_iff.1 h'
  cases hentry.symm.trans hentry'
  exact ⟨rfl, Option.some.inj (hr.symm.trans hr')⟩

/-- The table is asked only once the place is found. -/
theorem inputBoundary?_eq (name : String) : inputBoundary? tables settings f op name =
    (f.entry? op).bind fun entry => (tables.int4.get? entry.1).map fun r =>
      (entry.2.affine? r settings.asymmetric 4).elim .overflow (.inputBoundary name) := by
  unfold inputBoundary? Function.entry?
  cases op.operands.head? with
  | none => rfl
  | some operand =>
    simp only [Option.bind_eq_bind, Option.bind_some]
    cases f.producer? operand with
    | none => rfl
    | some producer =>
      simp only [Option.bind_some]
      split
      · rfl
      · simp only [Option.pure_def, Option.bind_some, Option.map_eq_bind, Function.comp_def]

section Found
variable (hk : op.kind = .conv ∨ op.kind = .matMul) {name : String} (hn : op.name? = some name)
  {x : Finding}
include hk hn

theorem outputBoundary?_eq_some_iff : outputBoundary? tables settings f op name = some x ↔
    ∃ r, OutputCrossing tables f op r ∧
      (op.kind.affine? r settings.asymmetric 8).elim .overflow (.outputBoundary name) = x := by
  unfold outputBoundary?
  constructor
  · intro h
    split at h
    · next hany =>
      obtain ⟨user, hu, huk⟩ := List.any_eq_true.1 hany
      obtain ⟨hu, hread⟩ := Function.mem_users.1 hu
      obtain ⟨r, hr, hx⟩ := Option.map_eq_some_iff.1 h
      rw [Bool.not_eq_true'] at huk
      exact ⟨r, .intro hk hn hr hu hread (OpKind.isConvOrMatMul_eq_false_iff.1 huk), hx⟩
    · cases h
  · rintro ⟨r, ⟨-, hn', hr, hu, hread, huk⟩, hx⟩
    cases hn.symm.trans hn'
    rw [if_pos, hr, Option.map_some, hx]
    refine List.any_eq_true.2 ⟨_, Function.mem_users.2 ⟨hu, hread⟩, ?_⟩
    rw [OpKind.isConvOrMatMul_eq_false_iff.2 huk]
    rfl

theorem inputBoundary?_eq_some_iff : inputBoundary? tables settings f op name = some x ↔
    ∃ kind r, InputCrossing tables f op kind r ∧
      (kind.affine? r settings.asymmetric 4).elim .overflow (.inputBoundary name) = x := by
  have hresults : op.results ≠ [] := Operation.name?_isSome.1 (Option.isSome_iff_exists.2 ⟨_, hn⟩)
  rw [inputBoundary?_eq, Option.bind_eq_some_iff]
  constructor
  · rintro ⟨⟨operand, kind⟩, hentry, h⟩
    obtain ⟨r, hr, hx⟩ := Option.map_eq_some_iff.1 h
    exact ⟨kind, r, inputCrossing_iff.2 ⟨hk, hresults, operand, hentry, hr⟩, hx⟩
  · rintro ⟨kind, r, hc, hx⟩
    obtain ⟨-, -, operand, hentry, hr⟩ := inputCrossing_iff.1 hc
    exact ⟨_, hentry, Option.map_eq_some_iff.2 ⟨r, hr, hx⟩⟩

theorem outputBoundary?_stop_iff {stop : Stop CalibrationError} :
    (outputBoundary? tables settings f op name).bind Finding.stop? = some stop ↔
      stop = .overflow ∧ ∃ r, OutputCrossing tables f op r ∧
        op.kind.affine? r settings.asymmetric 8 = none := by
  simp only [Option.bind_eq_some_iff, outputBoundary?_eq_some_iff hk hn]
  constructor
  · rintro ⟨x, ⟨r, hc, rfl⟩, hstop⟩
    cases hp : op.kind.affine? r settings.asymmetric 8 with
    | none =>
      rw [hp] at hstop
      exact ⟨(Option.some.inj hstop).symm, r, hc, hp⟩
    | some p =>
      rw [hp] at hstop
      cases hstop
  · rintro ⟨rfl, r, hc, hp⟩
    exact ⟨_, ⟨r, hc, rfl⟩, by rw [hp]; rfl⟩

theorem inputBoundary?_stop_iff {stop : Stop CalibrationError} :
    (inputBoundary? tables settings f op name).bind Finding.stop? = some stop ↔
      stop = .overflow ∧ ∃ kind r, InputCrossing tables f op kind r ∧
        kind.affine? r settings.asymmetric 4 = none := by
  simp only [Option.bind_eq_some_iff, inputBoundary?_eq_some_iff hk hn]
  constructor
  · rintro ⟨x, ⟨kind, r, hc, rfl⟩, hstop⟩
    cases hp : kind.affine? r settings.asymmetric 4 with
    | none =>
      rw [hp] at hstop
      exact ⟨(Option.some.inj hstop).symm, kind, r, hc, hp⟩
    | some p =>
      rw [hp] at hstop
      cases hstop
  · rintro ⟨rfl, kind, r, hc, hp⟩
    exact ⟨_, ⟨kind, r, hc, rfl⟩, by rw [hp]; rfl⟩

end Found

theorem OutputCrossing.heavy {r : Record} (h : OutputCrossing tables f op r) :
    op.kind = .conv ∨ op.kind = .matMul := by
  obtain ⟨hk, -⟩ := h
  exact hk

theorem InputCrossing.heavy {kind : OpKind} {r : Record} (h : InputCrossing tables f op kind r) :
    op.kind = .conv ∨ op.kind = .matMul := by
  obtain ⟨hk, -⟩ := h
  exact hk

theorem OutputCrossing.name?_isSome {r : Record} (h : OutputCrossing tables f op r) :
    op.name?.isSome = true := by
  obtain ⟨-, hn, -⟩ := h
  rw [hn]
  rfl

theorem InputCrossing.name?_isSome {kind : OpKind} {r : Record}
    (h : InputCrossing tables f op kind r) : op.name?.isSome = true := by
  obtain ⟨-, hn, -⟩ := h
  exact Operation.name?_isSome.2 hn

theorem Boundary.heavy {x : Finding} (h : Boundary tables settings f op x) :
    op.kind = .conv ∨ op.kind = .matMul := by
  cases h with
  | output _ hc | outputOverflow hc => exact hc.heavy
  | input _ hc | inputOverflow hc => exact hc.heavy

theorem boundaryFindings_of_name? {name : String} (hn : op.name? = some name) :
    boundaryFindings tables settings f op =
      (outputBoundary? tables settings f op name).toList ++
        (inputBoundary? tables settings f op name).toList := by
  rw [boundaryFindings, hn]

theorem boundaryFindings_of_nameless (hn : op.name? = none) :
    boundaryFindings tables settings f op = [] := by
  rw [boundaryFindings, hn]

theorem mem_boundaryFindings (hk : op.kind = .conv ∨ op.kind = .matMul) {x : Finding} :
    x ∈ boundaryFindings tables settings f op ↔ Boundary tables settings f op x := by
  cases hn : op.name? with
  | none =>
    rw [boundaryFindings_of_nameless hn]
    refine ⟨nofun, fun h => ?_⟩
    cases h with
    | output _ hc | outputOverflow hc => simpa [hn] using hc.name?_isSome
    | input _ hc | inputOverflow hc => simpa [hn] using hc.name?_isSome
  | some name =>
    rw [boundaryFindings_of_name? hn, List.mem_append, Option.mem_toList, Option.mem_toList,
      outputBoundary?_eq_some_iff hk hn, inputBoundary?_eq_some_iff hk hn]
    constructor
    · rintro (⟨r, hc, hx⟩ | ⟨kind, r, hc, hx⟩)
      · cases hp : op.kind.affine? r settings.asymmetric 8 with
        | none =>
          rw [hp] at hx
          exact hx ▸ .outputOverflow hc hp
        | some p =>
          rw [hp] at hx
          exact hx ▸ .output hn hc hp
      · cases hp : kind.affine? r settings.asymmetric 4 with
        | none =>
          rw [hp] at hx
          exact hx ▸ .inputOverflow hc hp
        | some p =>
          rw [hp] at hx
          exact hx ▸ .input hn hc hp
    · intro h
      cases h with
      | output hn' hc hp =>
        cases hn.symm.trans hn'
        exact .inl ⟨_, hc, by rw [hp]; rfl⟩
      | outputOverflow hc hp => exact .inl ⟨_, hc, by rw [hp]; rfl⟩
      | input hn' hc hp =>
        cases hn.symm.trans hn'
        exact .inr ⟨_, _, hc, by rw [hp]; rfl⟩
      | inputOverflow hc hp => exact .inr ⟨_, _, hc, by rw [hp]; rfl⟩

end Calibration
