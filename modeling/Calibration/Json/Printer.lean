import Calibration.Json.Basic
import Calibration.Json.Quoted
import Calibration.Number.Layout

/-! # Writing JSON

Every item and member stands on a line of its own, two blanks deeper than its bracket, and empty
brackets stay together. JSON has no infinities, so they are written as `null`. Each function writes in
front of the text that follows.
-/
namespace Calibration.Json

def intText (n : Int) : List Char :=
  (if n < 0 then ['-'] else []) ++ Nat.toDigits 10 n.natAbs

def floatText (x : Float) : List Char :=
  if x.isFinite then Layout.stored.finite x else ['n', 'u', 'l', 'l']

def newline (depth : Nat) (rest : List Char) : List Char :=
  '\n' :: (List.replicate (2 * depth) ' ' ++ rest)

mutual

/-- A value whose brackets stand at this depth. -/
def layOut (depth : Nat) (rest : List Char) : Json → List Char
  | .null => ['n', 'u', 'l', 'l'] ++ rest
  | .bool true => ['t', 'r', 'u', 'e'] ++ rest
  | .bool false => ['f', 'a', 'l', 's', 'e'] ++ rest
  | .int n => intText n ++ rest
  | .float x => floatText x ++ rest
  | .str s => Quoted.write s rest
  | .arr [] => '[' :: ']' :: rest
  | .arr (j :: items) =>
    '[' :: newline (depth + 1)
      (layOut (depth + 1) (layOutItems (depth + 1) (newline depth (']' :: rest)) items) j)
  | .obj [] => '\x7b' :: '\x7d' :: rest
  | .obj ((key, j) :: members) =>
    '\x7b' :: newline (depth + 1) (Quoted.write key (':' :: ' ' ::
      layOut (depth + 1) (layOutMembers (depth + 1) (newline depth ('\x7d' :: rest)) members) j))

def layOutItems (depth : Nat) (rest : List Char) : List Json → List Char
  | [] => rest
  | j :: items => ',' :: newline depth (layOut depth (layOutItems depth rest items) j)

def layOutMembers (depth : Nat) (rest : List Char) : List (Option String × Json) → List Char
  | [] => rest
  | (key, j) :: members =>
    ',' :: newline depth (Quoted.write key (':' :: ' ' ::
      layOut depth (layOutMembers depth rest members) j))

end

def pretty (j : Json) : String := String.ofList (j.layOut 0 [])

end Calibration.Json
