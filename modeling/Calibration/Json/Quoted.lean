/-! # Quoted text

Writing escapes quotes, backslashes and control characters only. Reading knows all escapes: it first
takes the text apart into characters and escaped code units, and then joins the units, two of which
may be one character.
-/
namespace Calibration.Json.Quoted

def escape (c : Char) : List Char :=
  if c = '"' then ['\\', '"']
  else if c = '\\' then ['\\', '\\']
  else if c = '\x08' then ['\\', 'b']
  else if c = '\x0c' then ['\\', 'f']
  else if c = '\n' then ['\\', 'n']
  else if c = '\r' then ['\\', 'r']
  else if c = '\t' then ['\\', 't']
  else if c.toNat < 0x20 then
    ['\\', 'u', '0', '0', Nat.digitChar (c.toNat / 16), Nat.digitChar (c.toNat % 16)]
  else [c]

/-- What stands between the quotes; what is no string is written as half a surrogate pair. -/
def content : Option String → List Char
  | some s => s.toList.flatMap escape
  | none => ['\\', 'u', 'd', '8', '0', '0']

def write (text : Option String) (rest : List Char) : List Char :=
  '"' :: (content text ++ '"' :: rest)

def hexValue? (c : Char) : Option Nat :=
  if '0' ≤ c ∧ c ≤ '9' then some (c.toNat - '0'.toNat)
  else if 'a' ≤ c ∧ c ≤ 'f' then some (c.toNat - 'a'.toNat + 10)
  else if 'A' ≤ c ∧ c ≤ 'F' then some (c.toNat - 'A'.toNat + 10)
  else none

inductive Part where
  | char (c : Char)
  | unit (code : Nat)
  deriving DecidableEq, Repr

def unescape? : Char → Option Char
  | '"' => some '"'
  | '\\' => some '\\'
  | '/' => some '/'
  | 'b' => some '\x08'
  | 'f' => some '\x0c'
  | 'n' => some '\n'
  | 'r' => some '\r'
  | 't' => some '\t'
  | _ => none

def code? (a b c d : Char) : Option Nat := do
  return ((← hexValue? a) * 16 + (← hexValue? b)) * 256 + (← hexValue? c) * 16 + (← hexValue? d)

def parts? : List Char → Option (List Part)
  | [] => some []
  | '\\' :: 'u' :: a :: b :: c :: d :: rest => do
    let code ← code? a b c d
    return .unit code :: (← parts? rest)
  | '\\' :: c :: rest => do
    let c ← unescape? c
    return .char c :: (← parts? rest)
  | c :: rest =>
    if c = '\\' ∨ c.toNat < 0x20 then none else (parts? rest).map (.char c :: ·)

def isHigh (code : Nat) : Bool := decide (0xd800 ≤ code ∧ code < 0xdc00)
def isLow (code : Nat) : Bool := decide (0xdc00 ≤ code ∧ code < 0xe000)

def pair (high low : Nat) : Char := Char.ofNat (0x10000 + (high - 0xd800) * 0x400 + (low - 0xdc00))

/-- Joins the halves of surrogate pairs, with the first half of one pending. A half that stands alone
makes it no text. -/
def join? (pending : Option Nat) : List Part → Option (List Char)
  | [] => if pending.isSome then none else some []
  | part :: rest =>
    match pending, part with
    | none, .char c => (join? none rest).map (c :: ·)
    | none, .unit code =>
      if isHigh code then join? (some code) rest
      else if isLow code then none
      else (join? none rest).map (Char.ofNat code :: ·)
    | some high, .unit code =>
      if isLow code then (join? none rest).map (pair high code :: ·) else none
    | some _, .char _ => none

/-- The text between two quotes; the outer `none` stands for ill-formed escapes. -/
def read? (cs : List Char) : Option (Option String) :=
  (parts? cs).map fun parts => (join? none parts).map String.ofList

end Calibration.Json.Quoted
