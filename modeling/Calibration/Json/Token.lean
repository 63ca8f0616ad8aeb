import Calibration.Json.Basic
import Calibration.Json.Quoted
import Calibration.Number.Literal

/-! # The tokens of JSON text

A text is scanned character by character into brackets, marks, quoted texts and words. A word is a run
of the characters of which numbers and the three names consist, so that two values never stand side by
side unseparated.
-/
namespace Calibration.Json

inductive Token where
  | openArr
  | closeArr
  | openObj
  | closeObj
  | colon
  | comma
  | str (text : Option String)
  /-- A number or one of the three names. -/
  | scalar (j : Json)

namespace Token

def mark? : Char → Option Token
  | '[' => some .openArr
  | ']' => some .closeArr
  | '\x7b' => some .openObj
  | '\x7d' => some .closeObj
  | ':' => some .colon
  | ',' => some .comma
  | _ => none

def isSpace (c : Char) : Bool := c = ' ' || c = '\n' || c = '\t' || c = '\r'

def isWordChar (c : Char) : Bool := c.isAlphanum || c = '+' || c = '-' || c = '.'

def number? (word : List Char) : Option Json := do
  let l ← Literal.split? word
  if !l.isJsonNumber then none
  else if l.fraction = none ∧ l.exponent = none then
    some (ofInteger (l.sign = some '-') (Literal.natOfDigits l.whole))
  else some (.float l.toDecimal.toFloat)

def word? (word : List Char) : Option Json :=
  if word = ['n', 'u', 'l', 'l'] then some .null
  else if word = ['t', 'r', 'u', 'e'] then some (.bool true)
  else if word = ['f', 'a', 'l', 's', 'e'] then some (.bool false)
  else number? word

/-- Where a scan stands. Unfinished words and texts are kept last character first. -/
inductive Mode where
  | between
  | word (raw : List Char)
  | quoted (raw : List Char) (escaped : Bool)
  deriving DecidableEq, Repr

def begin? (c : Char) : Option (List Token × Mode) :=
  if isSpace c then some ([], .between)
  else if c = '"' then some ([], .quoted [] false)
  else if isWordChar c then some ([], .word [c])
  else (mark? c).map fun t => ([t], .between)

def step? (mode : Mode) (c : Char) : Option (List Token × Mode) :=
  match mode with
  | .between => begin? c
  | .word raw =>
    if isWordChar c then some ([], .word (c :: raw))
    else do
      let j ← word? raw.reverse
      let (tokens, next) ← begin? c
      return (.scalar j :: tokens, next)
  | .quoted raw true => some ([], .quoted (c :: raw) false)
  | .quoted raw false =>
    if c = '"' then (Quoted.read? raw.reverse).map fun text => ([.str text], .between)
    else some ([], .quoted (c :: raw) (c = '\\'))

def finish? : Mode → Option (List Token)
  | .between => some []
  | .word raw => (word? raw.reverse).map fun j => [.scalar j]
  | .quoted .. => none

def scan? (mode : Mode) : List Char → Option (List Token)
  | [] => finish? mode
  | c :: rest => do
    let (tokens, next) ← step? mode c
    return tokens ++ (← scan? next rest)

def list? (cs : List Char) : Option (List Token) := scan? .between cs

end Token
end Calibration.Json
