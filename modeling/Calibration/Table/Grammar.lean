import Calibration.Number.Literal
import Calibration.Table.Store
import Calibration.Text.Blank

/-! # The lines of a calibration table

A record is a name and three numbers, a weight line a name, a count and as many numbers. Two readings
of a record differ: its shape looks at characters only and reaches to the end of the line, its
fields are whole words with finite values and leave the rest unread. Every reading is greedy and
gives back what it left.
-/
namespace Calibration.Table
open Text

def isComment (cs : List Char) : Bool := cs.head? = some '#'

def isNumberChar (c : Char) : Bool :=
  c.isDigit || c = '+' || c = '-' || c = '.' || c = 'e' || c = 'E'

def run? (p : Char → Bool) (cs : List Char) : Option (List Char × List Char) :=
  if (cs.takeWhile p).isEmpty then none else some (cs.takeWhile p, cs.dropWhile p)

def word? : List Char → Option (List Char × List Char) := run? fun c => !isWhitespace c

def skipBlanks (cs : List Char) : List Char := cs.dropWhile isBlank

def afterBlanks? (cs : List Char) : Option (List Char) := (run? isBlank cs).map (·.2)

def finiteNumber? (word : List Char) : Option Float := do
  let literal ← if word.all isNumberChar then Literal.split? word else none
  let x := literal.toDecimal.toFloat
  if literal.isTableNumber && x.isFinite then some x else none

def number? (cs : List Char) : Option (Float × List Char) := do
  let (word, rest) ← word? (← afterBlanks? cs)
  return (← finiteNumber? word, rest)

/-- Blanks, then characters of numbers that need not make one. -/
def numberChars? (cs : List Char) : Option (List Char × List Char) := do
  run? isNumberChar (← afterBlanks? cs)

structure Shape where
  name : List Char
  threshold : List Char
  min : List Char
  max : List Char
  deriving DecidableEq, Repr

/-- A whole line of the shape of a record; only blanks may follow it. -/
def shape? (cs : List Char) : Option (Shape × List Char) := do
  let (name, rest) ← word? cs
  let (threshold, rest) ← numberChars? rest
  let (min, rest) ← numberChars? rest
  let (max, rest) ← numberChars? rest
  if (skipBlanks rest).isEmpty then some (⟨name, threshold, min, max⟩, []) else none

/-- A name and a record after any blanks; what follows the third number is not looked at. -/
def record? (cs : List Char) : Option ((List Char × Record) × List Char) := do
  let (name, rest) ← word? (skipBlanks cs)
  let (threshold, rest) ← number? rest
  let (min, rest) ← number? rest
  let (max, rest) ← number? rest
  return ((name, ⟨threshold, min, max⟩), rest)

def numbers? : Nat → List Char → Option (List Float × List Char)
  | 0, cs => some ([], cs)
  | n + 1, cs => do
    let (x, rest) ← number? cs
    let (xs, rest) ← numbers? n rest
    return (x :: xs, rest)

/-- A count is a run of digits below `2 ^ 64`, ended by whatever is no digit. -/
def count? (cs : List Char) : Option (Nat × List Char) := do
  let (digits, rest) ← run? Char.isDigit cs
  let n := Literal.natOfDigits digits
  if n < UInt64.size then some (n, rest) else none

/-- A name, a count and that many numbers; what follows them is not looked at. -/
def channelScales? (cs : List Char) : Option ((List Char × List Float) × List Char) := do
  let (name, rest) ← word? (skipBlanks cs)
  let (n, rest) ← count? (← afterBlanks? rest)
  let (scales, rest) ← numbers? n rest
  return ((name, scales), rest)

end Calibration.Table
