import Calibration.Proofs.Graph.Refresh
import Calibration.Proofs.Plan.Boundaries
import Mathlib.Logic.Relation

/-! # Queries that agree

A value is found by its name, and so are the operation that defines it and those that read it. Each is a search of
its own, and they agree on every function. In a well-formed module names stand for places as well: an operand has one
producer in the module, which is an operation before its reader in the same function, so no chain of readers comes
back to where it began.
-/
namespace Calibration

/-- What two elements of a list share lies in one of them only if all are distinct. -/
theorem index_eq_of_nodup_flatMap {α β : Type} {xs : List α} {g : α → List β} (h : (xs.flatMap g).Nodup)
    {i j : Nat} {a b : α} (ha : xs[i]? = some a) (hb : xs[j]? = some b) {y : β} (hya : y ∈ g a)
    (hyb : y ∈ g b) : i = j := by
  have hdisjoint := List.pairwise_iff_getElem.1 (List.nodup_flatMap.1 h).2
  obtain ⟨hi, rfl⟩ := List.getElem?_eq_some_iff.1 ha
  obtain ⟨hj, rfl⟩ := List.getElem?_eq_some_iff.1 hb
  rcases Nat.lt_trichotomy i j with hlt | heq | hgt
  · exact absurd hyb (hdisjoint i j hi hj hlt hya)
  · exact heq
  · exact absurd hya (hdisjoint j i hj hi hgt hyb)

namespace Function
variable {f : Function} {x : String}

/-- `places` are the indices of the operations that read `x`, in program order. -/
structure ReadAt (f : Function) (x : String) (places : List Nat) : Prop where
  ordered : places.Pairwise (· < ·)
  mem_iff : ∀ i, i ∈ places ↔ ∃ op, f.ops[i]? = some op ∧ x ∈ op.operands

theorem exists_readAt (f : Function) (x : String) :
    ∃ places, f.ReadAt x places ∧ (f.users x).map some = places.map fun i => f.ops[i]? := by
  let read := f.ops.zipIdx.filter fun p => p.1.uses x
  refine ⟨read.map Prod.snd, ⟨?_, fun i => ?_⟩, ?_⟩
  · have hall : (f.ops.zipIdx.map Prod.snd).Pairwise (· < ·) := by
      rw [List.zipIdx_map_snd]
      exact List.pairwise_lt_range'
    exact hall.sublist (List.filter_sublist.map Prod.snd)
  · have huses (op : Operation) : op.uses x = true ↔ x ∈ op.operands := by simp [Operation.uses]
    constructor
    · intro hi
      obtain ⟨⟨op, j⟩, hp, rfl⟩ := List.mem_map.1 hi
      obtain ⟨hop, hread⟩ := List.mem_filter.1 hp
      exact ⟨op, List.mem_zipIdx_iff_getElem?.1 hop, (huses op).1 hread⟩
    · rintro ⟨op, hop, hread⟩
      have hp : (op, i) ∈ read :=
        List.mem_filter.2 ⟨List.mem_zipIdx_iff_getElem?.2 hop, (huses op).2 hread⟩
      exact List.mem_map_of_mem hp
  · have husers : (f.ops.zipIdx.map Prod.fst).filter (fun op => op.uses x) = read.map Prod.fst :=
      List.filter_map
    rw [List.zipIdx_map_fst] at husers
    change (f.ops.filter fun op => op.uses x).map some = _
    rw [husers, List.map_map, List.map_map]
    refine List.map_congr_left fun p hp => ?_
    exact (List.mem_zipIdx_iff_getElem?.1 (List.mem_filter.1 hp).1).symm

/-- The search for a value ends in the first operation that defines one of its name. -/
theorem value?_eq_some_iff_producer? {v : Value} :
    f.value? x = some v ↔ ∃ op, f.producer? x = some op ∧ FirstNamed op.results x v := by
  simp only [value?, values, producer?, ← find?_name_eq_some_iff]
  induction f.ops with
  | nil => simp
  | cons op ops ih =>
    have hdefines : op.defines x = (op.results.find? fun v => v.name = x).isSome := by
      rw [Bool.eq_iff_iff, List.find?_isSome, Operation.defines, List.any_eq_true]
    rw [List.flatMap_cons, List.find?_append, List.find?_cons, hdefines]
    cases hfind : op.results.find? fun v => v.name = x with
    | none => exact ih
    | some w => simp [hfind]

theorem value?_isSome_iff : (f.value? x).isSome = true ↔ x ∈ f.values.map Value.name := by
  simp [value?]

theorem value?_isSome_eq_producer?_isSome : (f.value? x).isSome = (f.producer? x).isSome := by
  rw [Bool.eq_iff_iff, value?_isSome_iff, producer?, List.find?_isSome, values, List.map_flatMap,
    List.mem_flatMap]
  refine exists_congr fun op => and_congr_right fun _ => ?_
  simp [Operation.defines]

/-- An operation that defines `x` where no other one does is the one that is found. -/
theorem producer?_of_unique {i : Nat} {op : Operation} (hop : f.ops[i]? = some op)
    (hx : x ∈ op.results.map Value.name)
    (hunique : ∀ j o, f.ops[j]? = some o → x ∈ o.results.map Value.name → j = i) :
    f.producer? x = some op := by
  have hdefines : op.defines x = true := by simpa [Operation.defines] using hx
  obtain ⟨o, ho⟩ : ∃ o, f.producer? x = some o :=
    Option.isSome_iff_exists.1 (List.find?_isSome.2 ⟨op, List.mem_of_getElem? hop, hdefines⟩)
  obtain ⟨before, after, hops, hfirst, -⟩ := producer?_eq_some_iff.1 ho
  have hat : f.ops[before.length]? = some o := by simp [hops]
  cases hunique _ _ hat hfirst
  exact ho.trans (hat.symm.trans hop)

/-- With its operands defined, a function has the producer of an operand before the reader. -/
theorem OperandsDefined.exists_before (h : f.OperandsDefined) {i : Nat} {u : Operation}
    (hu : f.ops[i]? = some u) (hx : x ∈ u.operands) :
    ∃ j op, j < i ∧ f.ops[j]? = some op ∧ x ∈ op.results.map Value.name := by
  obtain ⟨hi, rfl⟩ := List.getElem?_eq_some_iff.1 hu
  have hsplit : f.ops = f.ops.take i ++ f.ops[i] :: f.ops.drop (i + 1) := by
    rw [List.getElem_cons_drop, List.take_append_drop]
  have hknown := h _ _ _ hsplit x hx
  obtain ⟨op, hop, hname⟩ := List.mem_flatMap.1 ((List.mem_append.1 hknown).resolve_left nofun)
  obtain ⟨j, hj⟩ := List.mem_iff_getElem?.1 hop
  rw [List.getElem?_take] at hj
  split at hj
  · next hlt => exact ⟨j, op, hlt, hj, hname⟩
  · cases hj

end Function

namespace Module
variable {m : Module} {x : String}

/-- What a well-formed module `m` knows of an operand `x` of the operation `u` that stands at `i` in `f`, the
function at `a`. -/
structure Resolves (m : Module) (a i : Nat) (f : Function) (u : Operation) (x : String) : Prop where
  /-- Its producer stands before `u`, and no other operation of `f` defines `x`. -/
  produced : ∃ j op, j < i ∧ f.ops[j]? = some op ∧ f.producer? x = some op ∧
    ∀ k o, f.ops[k]? = some o → x ∈ o.results.map Value.name → k = j
  read : u ∈ f.users x
  /-- No other function has a result of this name. -/
  own : ∀ b g, m.functions[b]? = some g → x ∈ g.values.map Value.name → b = a
  found : ∃ v, f.value? x = some v ∧ m.value? x = some v

/-- The operation at `p` produces an operand of the operation at `q`, which stands in the same function. -/
def Feeds (m : Module) (p q : Nat × Nat) : Prop :=
  ∃ f op u x, m.OpAt p.1 p.2 f op ∧ m.OpAt q.1 q.2 f u ∧ p.1 = q.1 ∧ x ∈ u.operands ∧
    f.producer? x = some op

/-- A value of one function alone is found in the module where it is found in the function. -/
theorem value?_of_own {a : Nat} {f : Function} (hf : m.functions[a]? = some f) {v : Value}
    (hv : f.value? x = some v)
    (hown : ∀ b g, m.functions[b]? = some g → x ∈ g.values.map Value.name → b = a) :
    m.value? x = some v := by
  have hsome : (m.value? x).isSome = true := by
    rw [value?, List.findSome?_isSome_iff]
    exact ⟨f, List.mem_of_getElem? hf, Option.isSome_iff_exists.2 ⟨v, hv⟩⟩
  obtain ⟨w, hw⟩ := Option.isSome_iff_exists.1 hsome
  obtain ⟨before, g, after, hfunctions, hg, -⟩ := List.findSome?_eq_some_iff.1 hw
  have hat : m.functions[before.length]? = some g := by simp [hfunctions]
  have hname : x ∈ g.values.map Value.name :=
    Function.value?_isSome_iff.1 (Option.isSome_iff_exists.2 ⟨w, hg⟩)
  cases hown _ _ hat hname
  cases hat.symm.trans hf
  exact hw.trans (hg.symm.trans hv)

theorem resolves_of_validate (h : m.validate = .ok ()) {a i : Nat} {f : Function} {u : Operation}
    (hat : m.OpAt a i f u) (hx : x ∈ u.operands) : m.Resolves a i f u x := by
  obtain ⟨hnodup, hfault⟩ := validate_eq_ok_iff.1 h
  have hmem : f ∈ m.functions := List.mem_of_getElem? hat.function
  obtain ⟨hoperands, -⟩ := Function.fault?_eq_none_iff.1 (hfault f hmem)
  obtain ⟨j, op, hlt, hop, hname⟩ := hoperands.exists_before hat.op hx
  have hnames : (f.ops.flatMap fun o => o.results.map Value.name).Nodup := by
    have hvalues := (List.nodup_flatMap.1 hnodup).1 f hmem
    rwa [Function.values, List.map_flatMap] at hvalues
  have hunique (k : Nat) (o : Operation) (ho : f.ops[k]? = some o)
      (hk : x ∈ o.results.map Value.name) : k = j :=
    index_eq_of_nodup_flatMap hnames ho hop hk hname
  have hvalue : x ∈ f.values.map Value.name := by
    rw [Function.values, List.map_flatMap]
    exact List.mem_flatMap.2 ⟨op, List.mem_of_getElem? hop, hname⟩
  have hown (b : Nat) (g : Function) (hg : m.functions[b]? = some g)
      (hxg : x ∈ g.values.map Value.name) : b = a :=
    index_eq_of_nodup_flatMap hnodup hg hat.function hxg hvalue
  obtain ⟨v, hv⟩ := Function.exists_value? hvalue
  exact {
    produced := ⟨j, op, hlt, hop, Function.producer?_of_unique hop hname hunique, hunique⟩
    read := Function.mem_users.2 ⟨List.mem_of_getElem? hat.op, hx⟩
    own := hown
    found := ⟨v, hv, value?_of_own hat.function hv hown⟩ }

/-- A producer stands before what it feeds. -/
theorem Feeds.lt (h : m.validate = .ok ()) {p q : Nat × Nat} (hfeeds : m.Feeds p q) : p.2 < q.2 := by
  obtain ⟨f, op, u, x, hp, hq, -, hx, hproducer⟩ := hfeeds
  obtain ⟨j, o, hlt, ho, hfound, hunique⟩ := (resolves_of_validate h hq hx).produced
  obtain ⟨-, -, -, hname, -⟩ := Function.producer?_eq_some_iff.1 hproducer
  exact hunique _ _ hp.op hname ▸ hlt

/-- Along a chain of readers places only grow. -/
theorem transGen_feeds_lt (h : m.validate = .ok ()) {p q : Nat × Nat}
    (hchain : Relation.TransGen m.Feeds p q) : p.2 < q.2 := by
  induction hchain with
  | single hfeeds => exact hfeeds.lt h
  | tail _ hfeeds ih => exact Nat.lt_trans ih (hfeeds.lt h)

/-- On every function the searches by name agree, and users are listed once each in program order. In a
well-formed module every operand is resolved, and no operation feeds itself, not even through others. -/
theorem use_def_queries_agree :
    (∀ (f : Function) (x : String), ((f.value? x).isSome = (f.producer? x).isSome) ∧
      (∀ v, f.value? x = some v ↔ ∃ op, f.producer? x = some op ∧ FirstNamed op.results x v) ∧
      ∃ places, f.ReadAt x places ∧ (f.users x).map some = places.map fun i => f.ops[i]?) ∧
    ∀ m : Module, m.validate = .ok () →
      (∀ a i f u, m.OpAt a i f u → ∀ x ∈ u.operands, m.Resolves a i f u x) ∧
      ∀ p, ¬Relation.TransGen m.Feeds p p := by
  refine ⟨fun f x => ⟨Function.value?_isSome_eq_producer?_isSome,
    fun v => Function.value?_eq_some_iff_producer?, f.exists_readAt x⟩, fun m h => ⟨?_, ?_⟩⟩
  · intro a i f u hat x hx
    exact resolves_of_validate h hat hx
  · intro p hcycle
    exact Nat.lt_irrefl _ (transGen_feeds_lt h hcycle)

theorem use_def_queries_agree_crossing :
    crossing.Resolves 0 2 crossingMain (crossingOp .conv ["r"] "c") "r" ∧
    ∀ p, ¬Relation.TransGen crossing.Feeds p p := by
  obtain ⟨hresolves, hacyclic⟩ := use_def_queries_agree.2 crossing rfl
  exact ⟨hresolves 0 2 _ _ crossing_conv "r" (by decide), hacyclic⟩

end Module
end Calibration
