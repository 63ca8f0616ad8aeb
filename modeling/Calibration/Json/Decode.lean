import Calibration.Json.Basic
import Calibration.Number.Word

/-! # Reading values out of JSON

A record is an object, in which unknown members are passed over and no known one may be repeated, or
an array of its fields in order. A choice is its name, or an object with the name as its one key. A
number without a fraction serves as a float, but a float never as an integer.
-/
namespace Calibration.Json

def toBool? : Json → Option Bool
  | .bool b => some b
  | _ => none

def toText? : Json → Option String
  | .str s => s
  | _ => none

def toInt64? : Json → Option Int64
  | .int n => checkedWord? n
  | _ => none

def finite? (x : Float) : Option Float := if x.isFinite then some x else none

def toFloat? : Json → Option Float
  | .int n => finite? (Binary64.ofInt n)
  | .float x => finite? x
  | _ => none

def toList? {α : Type} (item? : Json → Option α) : Json → Option (List α)
  | .arr items => items.mapM item?
  | _ => none

/-- The members under keys that are strings; none may have another key. -/
def members? : Json → Option (List (String × Json))
  | .obj members => members.mapM fun m => m.1.map fun key => (key, m.2)
  | _ => none

/-- Of two members with one key the later is kept, but both must be readable. -/
def toMap? {α : Type} (value? : Json → Option α) (j : Json) : Option (NameMap α) := do
  let entries ← (← j.members?).mapM fun m => (value? m.2).map fun a => (m.1, a)
  return NameMap.ofList entries

/-- The values of the named fields of a record, as far as they are there. -/
def fields? (names : List String) (j : Json) : Option (List (Option Json)) :=
  match j with
  | .arr items =>
    if items.length ≤ names.length then
      some (items.map some ++ List.replicate (names.length - items.length) none)
    else none
  | j => do
    let members ← j.members?
    names.mapM fun name =>
      match members.filter fun m => m.1 = name with
      | [] => some none
      | [m] => some (some m.2)
      | _ => none

def required {α : Type} (value? : Json → Option α) (field : Option Json) : Option α :=
  field.bind value?

def withDefault {α : Type} (missing : α) (value? : Json → Option α) : Option Json → Option α
  | none => some missing
  | some j => value? j

/-- The name of a choice, and what it holds. -/
def choice? : Json → Option (String × Json)
  | .str s => s.map fun name => (name, .null)
  | .obj [(some name, j)] => some (name, j)
  | _ => none

def named? {α : Type} (a : α) : Json → Option α
  | .null => some a
  | _ => none

end Calibration.Json
