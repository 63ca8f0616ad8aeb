import Calibration.Number.Decimal

/-! # The shortest decimal of a float

The grids of powers of ten are tried from coarse to fine. On each, the two points around the value
are read back as floats, and the first grid on which one of them gives the float again has the
fewest digits. The last grid holds the value itself, so the search ends without a bound on the
number of digits.
-/
namespace Calibration.Shortest
open Binary64

inductive Tie where
  | even
  | away
  deriving DecidableEq, Repr

/-- The point of the grid `10 ^ place` to write for `s`, if one beside it reads back as `s`. -/
def candidate? (tie : Tie) (s : Scaled) (place : Int) : Option Nat :=
  let num := s.numerator * Nat.pow 10 (-place).toNat
  let den := s.denominator * Nat.pow 10 place.toNat
  let below := num / den
  let twice := 2 * (num % den)
  let readsBack := fun c => decide (Decimal.magnitudeBits c place = s.toBits)
  match readsBack below, readsBack (below + 1) with
  | true, true =>
    if twice < den then some below
    else if den < twice then some (below + 1)
    else match tie with
      | .even => some (below + below % 2)
      | .away => some (below + 1)
  | true, false => some below
  | false, true => some (below + 1)
  | false, false => none

/-- The coefficient and the grid, with `steps` finer grids left below `place`. -/
def search (tie : Tie) (s : Scaled) (place : Int) : Nat → Nat × Int
  | 0 => (s.numerator * Nat.pow 10 (-place).toNat / (s.denominator * Nat.pow 10 place.toNat), place)
  | steps + 1 =>
    match candidate? tie s place with
    | some c => (c, place)
    | none => search tie s (place - 1) steps

/-- A power of ten above `s`, for `30103 / 100000` is just above `log₁₀ 2`. -/
def coarsest (s : Scaled) : Int := (s.significand.log2 + 1 + s.exponent) * 30103 / 100000 + 1

def finest (s : Scaled) : Int := min s.exponent 0

/-- The reduced decimal `c * 10 ^ e` written for the finite float with these bits. -/
def ofBits (tie : Tie) (bits : Nat) : Nat × Int :=
  let s := Scaled.ofBits bits
  let (c, e) := search tie s (coarsest s) (coarsest s - finest s).toNat
  Decimal.reduce c e

end Calibration.Shortest
