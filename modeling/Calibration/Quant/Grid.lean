import Calibration.Number.Binary64
import Calibration.Number.Word

/-! # Integer grids and the map of a range onto one

A range of floats is mapped onto a grid of integers by a scale and a zero point. The words are those
of 64-bit machines and arithmetic is checked: there is no map where a sum leaves the words, and none
where a point is sought on a grid that is upside down.
-/
namespace Calibration

/-- The integers from `low` to `high`. A stored grid may be upside down. -/
structure Grid where
  low : Int64
  high : Int64
  deriving DecidableEq, Repr

namespace Grid

def int8 : Grid := ⟨-128, 127⟩
def int4 : Grid := ⟨-8, 7⟩
def int4Narrow : Grid := ⟨-7, 7⟩

def ofWidth (bits : Nat) : Grid :=
  let half : Int := Int.pow 2 (max 2 (min bits 32) - 1)
  ⟨Int64.ofInt (-half), Int64.ofInt (half - 1)⟩

/-- The grid of a bit width. Only at four bits does it depend on the mode. -/
def forBits (bits : Nat) (asymmetric : Bool) : Grid :=
  if bits = 8 then int8
  else if bits = 4 then (if asymmetric then int4 else int4Narrow)
  else ofWidth bits

def span (g : Grid) : Int := g.high.toInt - g.low.toInt

def steps (g : Grid) : Float := Binary64.ofInt g.span

/-- The point of the grid nearest to `i`, unless the grid is upside down. -/
def clamp? (g : Grid) (i : Int64) : Option Int64 :=
  if g.high < g.low then none
  else some (if i < g.low then g.low else if g.high < i then g.high else i)

end Grid

/-- `scale` and `zeroPoint` map a range onto `grid`. -/
structure Affine where
  scale : Float
  zeroPoint : Int64
  grid : Grid
  deriving DecidableEq

namespace Affine

/-- No range at all: its bounds are in the wrong order or not numbers. -/
def isDegenerate (min max : Float) : Bool := decide (max ≤ min) || max.isNaN || min.isNaN

def isCentred (min max : Float) : Bool := min == -max

/-- How far above the lowest point of `g` zero lies, the product being formed before the
quotient. -/
def offset (min max : Float) (g : Grid) : Int64 :=
  Binary64.roundToInt64 (-min * g.steps / (max - min))

def sum (min max : Float) (g : Grid) : Int := g.low.toInt + (offset min max g).toInt

/-- A centred range keeps zero at zero. -/
def zeroPoint? (min max : Float) (g : Grid) : Option Int64 :=
  if isCentred min max then some 0 else (checkedWord? (sum min max g)).bind g.clamp?

/-- The map of `[min, max]` onto a grid. Without a range it is the identity. -/
def derive? (min max : Float) (g : Grid) : Option Affine :=
  if isDegenerate min max then some ⟨1, 0, g⟩
  else if (checkedWord? g.span).isNone then none
  else (zeroPoint? min max g).map fun zeroPoint => ⟨(max - min) / g.steps, zeroPoint, g⟩

end Affine
end Calibration
