import Calibration.NameMap
import Calibration.Number.Decimal

/-! # JSON values

Members keep their order and may repeat a key, for only a reader of a record can say what that means.
An escape may name half of a surrogate pair; such a text is no string and is kept as `none`, so that
a value holding one can still be skipped. A number too large for a float is kept as an infinity.
-/
namespace Calibration

inductive Json where
  | null
  | bool (b : Bool)
  | int (n : Int)
  | float (x : Float)
  | str (text : Option String)
  | arr (items : List Json)
  | obj (members : List (Option String × Json))

namespace Json

instance : Inhabited Json := ⟨.null⟩

def text (s : String) : Json := .str (some s)

def object (members : List (String × Json)) : Json :=
  .obj (members.map fun m => (some m.1, m.2))

/-- A number written without a point or an exponent is an integer where 64 bits can hold it, with a
sign or without one. A negative zero is no integer. -/
def ofInteger (negative : Bool) (n : Nat) : Json :=
  if negative then
    if n ≠ 0 ∧ n ≤ 0x8000000000000000 then .int (-n) else .float (Decimal.toFloat ⟨true, n, 0⟩)
  else if n < UInt64.size then .int n
  else .float (Decimal.toFloat ⟨false, n, 0⟩)

end Json
end Calibration
