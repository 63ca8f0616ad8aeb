import Mathlib.Data.List.Nodup

/-! # Walks that note where they are

A walk over a list notes the index of what it finds. Edits that are made afterwards at the noted indices
change every element by its own edits alone. The first hit of a walk is the one at the least index, and
that of a walk within a walk the one at the least pair.
-/
namespace Calibration
variable {α β ε ι : Type}

section Edits
variable {step : List α → β → List α} (change : β → α → α)

theorem modify_middle (before rest : List α) (a : α) (f : α → α) :
    (before ++ a :: rest).modify before.length f = before ++ f a :: rest := by
  induction before with
  | nil => simp
  | cons b before ih => simp [ih]

private theorem foldl_middle (before rest : List α) (a : α) (bs : List β)
    (h : ∀ b ∈ bs, ∀ xs, step xs b = xs.modify before.length (change b)) :
    bs.foldl step (before ++ a :: rest) =
      before ++ bs.foldl (fun a b => change b a) a :: rest := by
  induction bs generalizing a with
  | nil => rfl
  | cons b bs ih =>
    have hb := h b List.mem_cons_self (before ++ a :: rest)
    rw [List.foldl_cons, hb, modify_middle, List.foldl_cons]
    exact ih (change b a) fun b hb => h b (List.mem_cons_of_mem _ hb)

private theorem foldl_edits_after (edits : α → Nat → List β) (g : α → α)
    (hstep : ∀ a i, ∀ b ∈ edits a i, ∀ xs, step xs b = xs.modify i (change b))
    (hg : ∀ a i, (edits a i).foldl (fun a b => change b a) a = g a) (before rest : List α) :
    ((rest.zipIdx before.length).flatMap fun p => edits p.1 p.2).foldl step (before ++ rest) =
      before ++ rest.map g := by
  induction rest generalizing before with
  | nil => simp
  | cons a rest ih =>
    have ha := foldl_middle change before rest a (edits a before.length) (hstep a before.length)
    have hrest := ih (before ++ [g a])
    simp only [List.zipIdx_cons, List.flatMap_cons, List.foldl_append]
    rw [ha, hg]
    simpa using hrest

/-- Edits made at the index of the element for which they were found. -/
theorem foldl_edits (edits : α → Nat → List β) (g : α → α)
    (hstep : ∀ a i, ∀ b ∈ edits a i, ∀ xs, step xs b = xs.modify i (change b))
    (hg : ∀ a i, (edits a i).foldl (fun a b => change b a) a = g a) (xs : List α) :
    (xs.zipIdx.flatMap fun p => edits p.1 p.2).foldl step xs = xs.map g := by
  simpa using foldl_edits_after change edits g hstep hg [] xs

end Edits

/-- Edits at two indices are made in any order, and so are edits at one that come to the same. -/
theorem modify_comm {f g : α → α} {i j : Nat} (h : i = j → ∀ a, g (f a) = f (g a)) (xs : List α) :
    (xs.modify i f).modify j g = (xs.modify j g).modify i f := by
  by_cases hij : i = j
  · subst hij
    rw [List.modify_modify_eq, List.modify_modify_eq]
    exact congrArg (xs.modify i) (funext (h rfl))
  · exact List.modify_modify_ne f g xs hij

/-- What is noted under its own index is noted once. -/
theorem nodup_flatMap_zipIdx (notes : α → Nat → List β) (place : β → Nat)
    (hplace : ∀ a i, ∀ b ∈ notes a i, place b = i) (hnodup : ∀ a i, (notes a i).Nodup) (xs : List α) :
    (xs.zipIdx.flatMap fun p => notes p.1 p.2).Nodup := by
  have hindices : (xs.zipIdx.map Prod.snd).Nodup := by
    rw [List.zipIdx_map_snd]
    exact List.nodup_range'
  refine List.nodup_flatMap.2 ⟨fun p _ => hnodup p.1 p.2, ?_⟩
  refine (List.pairwise_map.1 hindices).imp fun {p q} hne b hp hq => hne ?_
  exact (hplace p.1 p.2 b hp).symm.trans (hplace q.1 q.2 b hq)

theorem forall_mem_modify {P : α → Prop} {f : α → α} (hf : ∀ a, P a → P (f a)) {xs : List α}
    (h : ∀ a ∈ xs, P a) (i : Nat) : ∀ a ∈ xs.modify i f, P a := by
  induction xs generalizing i with
  | nil => simp
  | cons x xs ih =>
    obtain ⟨hx, hxs⟩ := List.forall_mem_cons.1 h
    cases i with
    | zero => simpa using ⟨hf x hx, hxs⟩
    | succ i => simpa using ⟨hx, ih hxs i⟩

theorem findSome?_flatMap (xs : List α) (g : α → List β) (look : β → Option ε) :
    (xs.flatMap g).findSome? look = xs.findSome? fun a => (g a).findSome? look := by
  induction xs with
  | nil => rfl
  | cons a xs ih =>
    rw [List.flatMap_cons, List.findSome?_append, ih, List.findSome?_cons]
    cases (g a).findSome? look <;> rfl

theorem findSome?_filterMap (xs : List α) (g : α → Option β) (look : β → Option ε) :
    (xs.filterMap g).findSome? look = xs.findSome? fun a => (g a).bind look := by
  induction xs with
  | nil => rfl
  | cons a xs ih =>
    rw [List.filterMap_cons, List.findSome?_cons, ← ih]
    cases g a <;> rfl

/-- An edit that a view does not show. -/
theorem map_modify_of_eq {f : α → α} {g : α → β} (h : ∀ a, g (f a) = g a) (xs : List α) (i : Nat) :
    (xs.modify i f).map g = xs.map g := by
  induction xs generalizing i with
  | nil => simp
  | cons x xs ih =>
    cases i with
    | zero => simp [h]
    | succ i => simp [ih]

/-- Indices that are not looked at. -/
theorem flatMap_zipIdx_fst (xs : List α) (k : α → List β) :
    (xs.zipIdx.flatMap fun p => k p.1) = xs.flatMap k := by
  have hmap := List.flatMap_map (f := Prod.fst) (g := k) (l := xs.zipIdx)
  rw [List.zipIdx_map_fst] at hmap
  exact hmap.symm

/-- All indices in their order. -/
theorem filterMap_getElem?_range (xs : List α) :
    ((List.range xs.length).filterMap fun i => xs[i]?) = xs := by
  induction xs with
  | nil => rfl
  | cons x xs ih =>
    rw [List.length_cons, List.range_succ_eq_map, List.filterMap_cons, List.filterMap_map]
    exact congrArg (x :: ·) ih

section FirstHits

/-- `r` is what is hit at the least place, if there is a hit at all. -/
def FirstHit (lt : ι → ι → Prop) (Hit : ι → ε → Prop) : Option ε → Prop
  | none => ∀ p e, ¬Hit p e
  | some e => ∃ p, Hit p e ∧ ∀ q e', Hit q e' → ¬lt q p

variable {lt : ι → ι → Prop} {Hit : ι → ε → Prop}

theorem FirstHit.eq_none_iff {r : Option ε} (h : FirstHit lt Hit r) :
    r = none ↔ ∀ p e, ¬Hit p e := by
  cases r with
  | none => exact ⟨fun _ => h, fun _ => rfl⟩
  | some e =>
    obtain ⟨p, hp, -⟩ := h
    constructor
    · intro hn
      cases hn
    · intro hn
      exact absurd hp (hn p e)

/-- Where places are compared and hold one hit each, the first hit is the only one. -/
theorem FirstHit.eq_some_iff {r : Option ε} (h : FirstHit lt Hit r)
    (hlt : ∀ p q, ¬lt p q → ¬lt q p → p = q) (hhit : ∀ p e e', Hit p e → Hit p e' → e = e')
    (e : ε) : r = some e ↔ ∃ p, Hit p e ∧ ∀ q e', Hit q e' → ¬lt q p := by
  constructor
  · rintro rfl
    exact h
  · rintro ⟨p, hp, hfirst⟩
    cases r with
    | none => exact absurd hp (h p e)
    | some e' =>
      obtain ⟨q, hq, hfirst'⟩ := h
      have hpq : p = q := hlt p q (hfirst' p e hp) (hfirst q e' hq)
      subst hpq
      exact congrArg some (hhit p e' e hq hp)

theorem FirstHit.congr {Hit' : ι → ε → Prop} {r : Option ε} (h : FirstHit lt Hit r)
    (hiff : ∀ p e, Hit p e ↔ Hit' p e) : FirstHit lt Hit' r := by
  have heq : Hit = Hit' := funext fun p => funext fun e => propext (hiff p e)
  exact heq ▸ h

/-- Two walks, of which the second does not reach behind the first. -/
theorem FirstHit.or {Hit' : ι → ε → Prop} {r r' : Option ε} (h : FirstHit lt Hit r)
    (h' : FirstHit lt Hit' r') (hlt : ∀ p e q e', Hit p e → Hit' q e' → ¬lt q p) :
    FirstHit lt (fun p e => Hit p e ∨ Hit' p e) (r.or r') := by
  cases r with
  | none =>
    cases r' with
    | none => exact fun p e hp => hp.elim (h p e) (h' p e)
    | some e' =>
      obtain ⟨p, hp, hfirst⟩ := h'
      exact ⟨p, .inr hp, fun q e hq => hq.elim (fun hq => absurd hq (h q e)) (hfirst q e)⟩
  | some e =>
    obtain ⟨p, hp, hfirst⟩ := h
    exact ⟨p, .inl hp, fun q e' hq => hq.elim (hfirst q e') (hlt p e q e' hp)⟩

theorem firstHit_single (k : Nat) (r : Option ε) :
    FirstHit (fun i j : Nat => i < j) (fun p e => p = k ∧ r = some e) r := by
  cases r with
  | none => exact fun p e h => nomatch h.2
  | some e => exact ⟨k, ⟨rfl, rfl⟩, fun q e' hq hlt => Nat.lt_irrefl k (hq.1 ▸ hlt)⟩

theorem eq_of_not_lex (h : ∀ p q, ¬lt p q → ¬lt q p → p = q) (p q : Nat × ι)
    (hpq : ¬Prod.Lex (fun i j : Nat => i < j) lt p q)
    (hqp : ¬Prod.Lex (fun i j : Nat => i < j) lt q p) : p = q := by
  obtain ⟨i, a⟩ := p
  obtain ⟨j, b⟩ := q
  have hij : ¬i < j := fun hlt => hpq (.left _ _ hlt)
  have hji : ¬j < i := fun hlt => hqp (.left _ _ hlt)
  have he : i = j := by omega
  subst he
  rw [h a b (fun hlt => hpq (.right _ hlt)) (fun hlt => hqp (.right _ hlt))]

variable {look : α → Nat → Option ε}

private theorem firstHit_walk_from (xs : List α) (n : Nat) :
    FirstHit (· < ·) (fun i e => ∃ a, xs[i]? = some a ∧ look a (n + i) = some e)
      ((xs.zipIdx n).findSome? fun p => look p.1 p.2) := by
  induction xs generalizing n with
  | nil => simp [FirstHit]
  | cons a xs ih =>
    rw [List.zipIdx_cons, List.findSome?_cons]
    cases ha : look a n with
    | some e => exact ⟨0, ⟨a, rfl, ha⟩, fun q e' _ => Nat.not_lt_zero q⟩
    | none =>
      have hrest := ih (n + 1)
      -- A hit in the whole list lies one place later than in the rest.
      have hshift (q : Nat) (e : ε) (b : α) (hb : (a :: xs)[q]? = some b)
          (hl : look b (n + q) = some e) : ∃ i, q = i + 1 ∧ xs[i]? = some b ∧
            look b (n + 1 + i) = some e := by
        cases q with
        | zero =>
          cases hb
          simp [ha] at hl
        | succ i => exact ⟨i, rfl, hb, by rwa [Nat.add_right_comm, Nat.add_assoc]⟩
      cases hr : (xs.zipIdx (n + 1)).findSome? fun p => look p.1 p.2 with
      | none =>
        rw [hr] at hrest
        rintro q e ⟨b, hb, hl⟩
        obtain ⟨i, -, hi, hl⟩ := hshift q e b hb hl
        exact hrest i e ⟨b, hi, hl⟩
      | some e =>
        rw [hr] at hrest
        obtain ⟨i, ⟨b, hb, hl⟩, hfirst⟩ := hrest
        refine ⟨i + 1, ⟨b, hb, by rwa [Nat.add_right_comm, Nat.add_assoc] at hl⟩, ?_⟩
        rintro q e' ⟨c, hc, hl'⟩ hq
        obtain ⟨j, rfl, hj, hl'⟩ := hshift q e' c hc hl'
        exact hfirst j e' ⟨c, hj, hl'⟩ (Nat.lt_of_succ_lt_succ hq)

theorem firstHit_walk (xs : List α) :
    FirstHit (· < ·) (fun i e => ∃ a, xs[i]? = some a ∧ look a i = some e)
      (xs.zipIdx.findSome? fun p => look p.1 p.2) := by
  simpa using firstHit_walk_from xs 0

/-- A walk whose every step is a walk of its own. -/
theorem FirstHit.walk {Hit : α → ι → ε → Prop} (h : ∀ a i, FirstHit lt (Hit a) (look a i))
    (xs : List α) :
    FirstHit (Prod.Lex (fun i j : Nat => i < j) lt) (fun p e => ∃ a, xs[p.1]? = some a ∧ Hit a p.2 e)
      (xs.zipIdx.findSome? fun p => look p.1 p.2) := by
  have hwalk : FirstHit (· < ·) (fun i e => ∃ a, xs[i]? = some a ∧ look a i = some e)
      (xs.zipIdx.findSome? fun p => look p.1 p.2) := firstHit_walk xs
  have hnone (i : Nat) (a : α) (hl : look a i = none) (q : ι) (e : ε) : ¬Hit a q e :=
    (h a i).eq_none_iff.1 hl q e
  cases hr : xs.zipIdx.findSome? fun p => look p.1 p.2 with
  | none =>
    rw [hr] at hwalk
    rintro ⟨i, q⟩ e ⟨a, ha, he⟩
    cases hl : look a i with
    | none => exact hnone i a hl q e he
    | some e' => exact hwalk i e' ⟨a, ha, hl⟩
  | some e =>
    rw [hr] at hwalk
    obtain ⟨i, ⟨a, ha, hl⟩, hfirst⟩ := hwalk
    have hinner := h a i
    rw [hl] at hinner
    obtain ⟨q, he, hleast⟩ := hinner
    refine ⟨(i, q), ⟨a, ha, he⟩, ?_⟩
    rintro ⟨j, q'⟩ e' ⟨b, hb, he'⟩ hlt
    cases hlt with
    | left _ _ hji =>
      cases hl' : look b j with
      | none => exact hnone j b hl' q' e' he'
      | some e'' => exact hfirst j e'' ⟨b, hb, hl'⟩ hji
    | right _ hq =>
      cases hb.symm.trans ha
      exact hleast q' e' he' hq

end FirstHits
end Calibration
