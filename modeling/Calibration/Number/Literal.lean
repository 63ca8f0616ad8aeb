import Calibration.Number.Decimal

/-! # Written numbers

A literal is a sign, digits around a point and an exponent, each of them optional. Which parts must
be there depends on who reads: calibration tables are lenient, JSON is not.
-/
namespace Calibration

structure Literal where
  sign : Option Char
  whole : List Char
  fraction : Option (List Char)
  exponent : Option Int
  deriving DecidableEq, Repr

namespace Literal

def takeSign : List Char → Option Char × List Char
  | '+' :: rest => (some '+', rest)
  | '-' :: rest => (some '-', rest)
  | rest => (none, rest)

def takeFraction : List Char → Option (List Char) × List Char
  | '.' :: rest => (some (rest.takeWhile Char.isDigit), rest.dropWhile Char.isDigit)
  | rest => (none, rest)

def natOfDigits (digits : List Char) : Nat := Nat.ofDigitChars 10 digits 0

/-- The exponent must end the text; the inner option tells a missing one from an ill-formed one. -/
def readExponent? : List Char → Option (Option Int)
  | [] => some none
  | marker :: rest =>
    let (sign, digits) := takeSign rest
    if (marker = 'e' ∨ marker = 'E') ∧ digits ≠ [] ∧ digits.all Char.isDigit then
      let e : Int := natOfDigits digits
      some (some (if sign = some '-' then -e else e))
    else none

def split? (cs : List Char) : Option Literal :=
  let (sign, cs) := takeSign cs
  let whole := cs.takeWhile Char.isDigit
  let (fraction, cs) := takeFraction (cs.dropWhile Char.isDigit)
  (readExponent? cs).map fun exponent => ⟨sign, whole, fraction, exponent⟩

def toDecimal (l : Literal) : Decimal :=
  let fraction := l.fraction.getD []
  { negative := decide (l.sign = some '-')
    coefficient := natOfDigits (l.whole ++ fraction)
    exponent := l.exponent.getD 0 - fraction.length }

def isTableNumber (l : Literal) : Bool := !(l.whole ++ l.fraction.getD []).isEmpty

/-- JSON has no plus sign, no needless zero in front, and digits on both sides of a point. -/
def isJsonNumber (l : Literal) : Bool :=
  decide (l.sign ≠ some '+') && (l.whole == ['0'] || (!l.whole.isEmpty && l.whole.head? != some '0'))
    && decide (l.fraction ≠ some [])

end Literal
end Calibration
