import Calibration.Number.Shortest

/-! # How a float is written

A layout says which numbers are written around a point and which with an exponent, and what follows
the digits of a whole number. Modules and tables are stored in `stored`; messages and type names use
`shown`.
-/
namespace Calibration

structure Layout where
  tie : Shortest.Tie
  /-- Whether digits are set around a point when the first stands at this power of ten. -/
  positional : Int → Bool
  /-- What follows the digits of a whole number. -/
  whole : List Char

namespace Layout

def aroundPoint (l : Layout) (digits : List Char) (e : Int) : List Char :=
  let lead := e + digits.length - 1
  if 0 ≤ e then digits ++ List.replicate e.toNat '0' ++ l.whole
  else if 0 ≤ lead then digits.take (lead + 1).toNat ++ '.' :: digits.drop (lead + 1).toNat
  else '0' :: '.' :: List.replicate (-lead - 1).toNat '0' ++ digits

def withExponent (digits : List Char) (lead : Int) : List Char :=
  let mantissa := match digits with
    | d :: second :: rest => d :: '.' :: second :: rest
    | short => short
  mantissa ++ 'e' :: (if lead < 0 then '-' else '+') :: Nat.toDigits 10 lead.natAbs

def magnitude (l : Layout) (bits : Nat) : List Char :=
  if bits = 0 then '0' :: l.whole
  else
    let (c, e) := Shortest.ofBits l.tie bits
    let digits := Nat.toDigits 10 c
    let lead := e + digits.length - 1
    if l.positional lead then l.aroundPoint digits e else withExponent digits lead

def finite (l : Layout) (x : Float) : List Char :=
  (if Binary64.isNegative x then ['-'] else []) ++ l.magnitude (Binary64.magnitudeBits x)

/-- In stored data a number keeps a point or an exponent, so that it stays a float. -/
def stored : Layout := ⟨.even, fun lead => decide (-5 ≤ lead ∧ lead < 16), ['.', '0']⟩

/-- Shown numbers never have an exponent, and whole ones no point. -/
def plain : Layout := ⟨.away, fun _ => true, []⟩

def shown (x : Float) : String :=
  if x.isNaN then "NaN"
  else if x.isInf then (if Binary64.isNegative x then "-inf" else "inf")
  else String.ofList (plain.finite x)

end Layout
end Calibration
