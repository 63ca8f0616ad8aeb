import Calibration.Graph.Validity
import Calibration.Proofs.Plan.Made
import Mathlib.Data.List.Forall2

/-! # What a calibration looks at besides types

Apart from elements, findings depend on the form of a function alone: the kinds of its operations, the names
they read and make, and the shapes of their results. Validation looks at no more than that and at the
outputs.
-/
namespace Calibration

def Value.form (v : Value) : String × Option (List Int64) := (v.name, v.type.tensor?.map TensorType.shape)

structure OperationForm where
  kind : OpKind
  operands : List String
  results : List (String × Option (List Int64))

def Operation.form (op : Operation) : OperationForm :=
  ⟨op.kind, op.operands, op.results.map Value.form⟩

def Function.form (f : Function) : List OperationForm := f.ops.map Operation.form

section Operation
variable {op op' : Operation} (h : op.form = op'.form)
include h

theorem Operation.kind_of_form : op.kind = op'.kind := congrArg OperationForm.kind h

theorem Operation.operands_of_form : op.operands = op'.operands := congrArg OperationForm.operands h

theorem Operation.results_of_form : op.results.map Value.form = op'.results.map Value.form :=
  congrArg OperationForm.results h

theorem Operation.names_of_form : op.results.map Value.name = op'.results.map Value.name := by
  have hnames := congrArg (List.map Prod.fst) (Operation.results_of_form h)
  rw [List.map_map, List.map_map] at hnames
  exact hnames

theorem Operation.name?_of_form : op.name? = op'.name? := by
  have hhead := congrArg List.head? (Operation.names_of_form h)
  rw [List.head?_map, List.head?_map] at hhead
  exact hhead

theorem Operation.channels?_of_form : op.channels? = op'.channels? := by
  have hhead := congrArg List.head? (Operation.results_of_form h)
  rw [List.head?_map, List.head?_map] at hhead
  unfold channels?
  cases hv : op.results.head? with
  | none =>
    rw [hv] at hhead
    rw [Option.map_eq_none_iff.1 hhead.symm]
  | some v =>
    rw [hv] at hhead
    obtain ⟨v', hv', hform⟩ := Option.map_eq_some_iff.1 hhead.symm
    have hshape : v'.type.tensor?.map TensorType.shape = v.type.tensor?.map TensorType.shape :=
      congrArg Prod.snd hform
    rw [hv']
    cases ht : v.type.tensor? with
    | none =>
      rw [ht, Option.map_none, Option.map_eq_none_iff] at hshape
      simp [ht, hshape]
    | some t =>
      rw [ht] at hshape
      obtain ⟨t', ht', hdims⟩ := Option.map_eq_some_iff.1 hshape
      simp [ht, ht', hdims]

end Operation

section Function
variable {f f' : Function} (h : f.form = f'.form)
include h

theorem Function.users_of_form (name : String) :
    (f.users name).map Operation.form = (f'.users name).map Operation.form := by
  -- Whether an operation reads a name shows in its form.
  have hfilter (g : Function) : (g.users name).map Operation.form =
      g.form.filter fun o => o.operands.contains name := by
    unfold Function.form
    rw [List.filter_map]
    rfl
  rw [hfilter, hfilter, h]

theorem Function.producer?_of_form (name : String) :
    (f.producer? name).map Operation.form = (f'.producer? name).map Operation.form := by
  have hfind (g : Function) : (g.producer? name).map Operation.form =
      g.form.find? fun o => o.results.any fun r => r.1 = name := by
    have hdefines (o : Operation) : (o.form.results.any fun r => r.1 = name) = o.defines name := by
      simp only [Operation.form, List.any_map]
      rfl
    unfold Function.form
    rw [List.find?_map]
    simp only [Function.comp_def, hdefines]
    rfl
  rw [hfind, hfind, h]

theorem Function.consumer?_of_form (name : String) : f.consumer? name = f'.consumer? name := by
  have hhead := congrArg List.head? (Function.users_of_form h name)
  rw [List.head?_map, List.head?_map] at hhead
  unfold consumer?
  cases hu : (f.users name).head? with
  | none =>
    rw [hu] at hhead
    rw [Option.map_eq_none_iff.1 hhead.symm]
  | some user =>
    rw [hu] at hhead
    obtain ⟨user', hu', hform⟩ := Option.map_eq_some_iff.1 hhead.symm
    rw [hu', Option.bind_some, Option.bind_some]
    exact (Operation.name?_of_form hform).symm

theorem Function.values_of_form :
    f.values.map Value.name = f'.values.map Value.name := by
  have hnames (g : Function) : g.values.map Value.name =
      g.form.flatMap fun o => o.results.map Prod.fst := by
    unfold Function.form Function.values
    rw [List.map_flatMap, List.flatMap_map]
    congr 1
    funext o
    simp only [Operation.form, List.map_map]
    rfl
  rw [hnames, hnames, h]

end Function

theorem undefinedOperand?_of_form {ops ops' : List Operation}
    (h : ops.map Operation.form = ops'.map Operation.form) (defined : List String) :
    Function.undefinedOperand? defined ops = Function.undefinedOperand? defined ops' := by
  induction ops generalizing ops' defined with
  | nil =>
    rw [List.map_eq_nil_iff.1 h.symm]
  | cons op ops ih =>
    obtain ⟨op', rest, rfl, hop, hops⟩ := List.map_eq_cons_iff.1 h.symm
    have hop := hop.symm
    rw [Function.undefinedOperand?, Function.undefinedOperand?, Operation.operands_of_form hop,
      Operation.name?_of_form hop, Operation.names_of_form hop]
    cases op'.operands.find? fun x => !defined.contains x with
    | some x => rfl
    | none => exact ih hops.symm _

theorem Function.fault?_of_form {f f' : Function} (h : f.form = f'.form)
    (ho : f.outputs = f'.outputs) : f.fault? = f'.fault? := by
  unfold fault? undefinedOutput?
  rw [undefinedOperand?_of_form h, values_of_form h, ho]

/-- Forms and outputs decide whether a module is well formed. -/
theorem Module.validate_of_form {m m' : Module}
    (h : List.Forall₂ (fun f f' : Function => f.form = f'.form ∧ f.outputs = f'.outputs)
      m.functions m'.functions) : m.validate = m'.validate := by
  obtain ⟨name, state, fs⟩ := m
  obtain ⟨name', state', fs'⟩ := m'
  dsimp only at h
  have hnames : (fs.flatMap fun f => f.values.map Value.name) =
      fs'.flatMap fun f => f.values.map Value.name := by
    induction h with
    | nil => rfl
    | cons hf _ ih => rw [List.flatMap_cons, List.flatMap_cons, Function.values_of_form hf.1, ih]
  have hfault : fs.findSome? Function.fault? = fs'.findSome? Function.fault? := by
    clear hnames
    induction h with
    | nil => rfl
    | cons hf _ ih =>
      rw [List.findSome?_cons, List.findSome?_cons, Function.fault?_of_form hf.1 hf.2, ih]
  simp only [validate, Module.fault?, valueNames, hnames, hfault]

section Findings
variable {f f' : Function} (hf : f.form = f'.form) {op op' : Operation} (hop : op.form = op'.form)
include hf hop

theorem weightFindings_of_form (tables : Tables) :
    weightFindings tables f op = weightFindings tables f' op' := by
  have hlength (name : String) : (f.users name).length = (f'.users name).length := by
    simpa using congrArg List.length (Function.users_of_form hf name)
  unfold weightFindings
  simp only [← Function.consumer?.eq_1]
  simp only [Operation.name?_of_form hop, Operation.channels?_of_form hop,
    Function.consumer?_of_form hf, hlength]

theorem Function.entry?_of_form : f.entry? op = f'.entry? op' := by
  unfold entry?
  rw [Operation.operands_of_form hop]
  cases op'.operands.head? with
  | none => rfl
  | some operand =>
    have hkind := congrArg (Option.map OperationForm.kind) (Function.producer?_of_form hf operand)
    rw [Option.map_map, Option.map_map] at hkind
    simp only [Option.bind_eq_bind, Option.bind_some]
    cases hp : f.producer? operand with
    | none =>
      rw [hp, Option.map_none] at hkind
      rw [Option.map_eq_none_iff.1 hkind.symm]
    | some producer =>
      rw [hp] at hkind
      obtain ⟨producer', hp', hk⟩ := Option.map_eq_some_iff.1 hkind.symm
      have hk : producer'.kind = producer.kind := hk
      rw [hp', Option.bind_some, Option.bind_some, hk]

theorem OutputCrossing.of_form {tables : Tables} {r : Record} (h : OutputCrossing tables f op r) :
    OutputCrossing tables f' op' r := by
  obtain @⟨name, user, r, hk, hn, hr, hu, hread, huk⟩ := h
  -- An operation of the same form stands in the other function.
  have hmem : user.form ∈ f'.form := by
    rw [← hf]
    exact List.mem_map_of_mem hu
  obtain ⟨user, hu', huser⟩ := List.mem_map.1 hmem
  exact .intro (Operation.kind_of_form hop ▸ hk) (Operation.name?_of_form hop ▸ hn) hr hu'
    (Operation.operands_of_form huser ▸ hread) (Operation.kind_of_form huser ▸ huk)

theorem InputCrossing.of_form {tables : Tables} {kind : OpKind} {r : Record}
    (h : InputCrossing tables f op kind r) : InputCrossing tables f' op' kind r := by
  have hname := h.name?_isSome
  rw [Operation.name?_of_form hop] at hname
  obtain ⟨hk, -, operand, hentry, hr⟩ := inputCrossing_iff.1 h
  exact inputCrossing_iff.2 ⟨Operation.kind_of_form hop ▸ hk, Operation.name?_isSome.1 hname, operand,
    Function.entry?_of_form hf hop ▸ hentry, hr⟩

theorem boundaryFindings_of_form (tables : Tables) (settings : Settings) :
    boundaryFindings tables settings f op = boundaryFindings tables settings f' op' := by
  have hany (name : String) : ((f.users name).any fun u => !u.kind.isConvOrMatMul) =
      (f'.users name).any fun u => !u.kind.isConvOrMatMul := by
    have hkinds := congrArg (fun os => os.any fun o : OperationForm => !o.kind.isConvOrMatMul)
      (Function.users_of_form hf name)
    simp only [List.any_map] at hkinds
    exact hkinds
  have hout (name : String) : outputBoundary? tables settings f op name =
      outputBoundary? tables settings f' op' name := by
    unfold outputBoundary?
    rw [hany, Operation.kind_of_form hop]
  have hin (name : String) : inputBoundary? tables settings f op name =
      inputBoundary? tables settings f' op' name := by
    rw [inputBoundary?_eq, inputBoundary?_eq, Function.entry?_of_form hf hop]
  unfold boundaryFindings
  rw [Operation.name?_of_form hop]
  cases op'.name? with
  | none => rfl
  | some name => simp only [hout, hin]

end Findings

end Calibration
