import Calibration.Text.Blank

/-! # Lines and words

A line ends at a newline, and a carriage return before that newline goes with it. Text and bytes are
split by the same function, a text at its characters and a file at its octets.
-/
namespace Calibration.Text
variable {α : Type}

/-- The runs between the elements at which `stop` holds, empty ones included. -/
def pieces (stop : α → Bool) : List α → List (List α)
  | [] => [[]]
  | a :: rest =>
    if stop a then [] :: pieces stop rest
    else match pieces stop rest with
      | [] => [[a]]
      | piece :: more => (a :: piece) :: more

def dropFinal [DecidableEq α] (final : α) (xs : List α) : List α :=
  if xs.getLast? = some final then xs.dropLast else xs

/-- What follows the last newline is a line only if it is not empty, and keeps its carriage
return. -/
def splitLines [DecidableEq α] (newline ret : α) (xs : List α) : List (List α) :=
  let all := pieces (fun a => a = newline) xs
  let unended := all.getLast?.getD []
  all.dropLast.map (dropFinal ret) ++ (if unended.isEmpty then [] else [unended])

def lines (text : String) : List String :=
  (splitLines '\n' '\r' text.toList).map String.ofList

def byteLines (bytes : ByteArray) : List ByteArray :=
  (splitLines 0x0a 0x0d bytes.data.toList).map List.toByteArray

def words (cs : List Char) : List (List Char) :=
  (pieces isWhitespace cs).filter (fun word => !word.isEmpty)

theorem pieces_ne_nil (stop : α → Bool) (xs : List α) : pieces stop xs ≠ [] := by
  cases xs with
  | nil => simp [pieces]
  | cons a rest =>
    rw [pieces]
    split
    · simp
    · split <;> simp

end Calibration.Text
