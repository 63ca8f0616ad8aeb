import Mathlib.Data.List.TakeWhile

/-! # Runs of characters

A run of characters of one class is taken off whole if what follows does not begin with another one.
-/
namespace Calibration.Text
variable {p : Char → Bool} {c : Char} {xs rest : List Char}

def Stops (p : Char → Bool) (cs : List Char) : Prop := ∀ c, cs.head? = some c → p c = false

theorem stops_cons (h : p c = false) (rest : List Char) : Stops p (c :: rest) := by
  intro d hd
  cases hd
  exact h

theorem Stops.imp {q : Char → Bool} {cs : List Char} (h : Stops p cs)
    (hpq : ∀ c, p c = false → q c = false) : Stops q cs := fun c hc => hpq c (h c hc)

theorem stops_dropWhile (p : Char → Bool) (cs : List Char) : Stops p (cs.dropWhile p) := by
  intro c hc
  have hstop := List.head?_dropWhile_not p cs
  rw [hc] at hstop
  simpa using hstop

theorem takeWhile_append (hxs : ∀ c ∈ xs, p c = true) (hrest : Stops p rest) :
    (xs ++ rest).takeWhile p = xs := by
  rw [List.takeWhile_append_of_pos hxs]
  cases rest with
  | nil => simp
  | cons c rest => simp [hrest c rfl]

theorem dropWhile_append (hxs : ∀ c ∈ xs, p c = true) (hrest : Stops p rest) :
    (xs ++ rest).dropWhile p = rest := by
  rw [List.dropWhile_append_of_pos hxs]
  cases rest with
  | nil => rfl
  | cons c rest => simp [hrest c rfl]

end Calibration.Text
