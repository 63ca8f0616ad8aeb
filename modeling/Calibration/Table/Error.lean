import Calibration.Folder

/-! # What goes wrong with a table

A table that cannot be read at all, or a line that is none. Such a line is shown with a hint, which
is found from the line alone and tells what keeps it from being a record.
-/
namespace Calibration

inductive TableError where
  | unreadable (path : String) (fault : FileFault)
  | malformed (line : Nat) (content : String)
  deriving DecidableEq, Repr

namespace Table
open Text

inductive Hint where
  | blankLine
  | leadingBlanks
  | numberCharacters
  | fieldCount (found : Nat)
  deriving DecidableEq, Repr

def Hint.ofLine (line : List Char) : Hint :=
  let fields := (words line).length
  if fields = 0 then .blankLine
  else if line.head?.any isWhitespace then .leadingBlanks
  else if fields = 4 then .numberCharacters
  else .fieldCount fields

def Hint.text : Hint → String
  | .blankLine =>
    "blank lines are not allowed here, and after `#int4_th` or `#weight_scale` a blank line ends " ++
    "the table; delete the line or turn it into a `#` comment"
  | .leadingBlanks => "data lines must start with the tensor name, without leading blanks"
  | .numberCharacters => "threshold, min and max may only use digits, '+', '-', '.', 'e' and 'E'"
  | .fieldCount found =>
    if found < 4 then s!"expected 4 fields, found {found}"
    else
      s!"expected 4 fields, found {found}; per-channel scales belong after a " ++
      "`#weight_scale` marker"

end Table

namespace TableError

def message : TableError → String
  | .unreadable path fault => s!"can't open calibration table `{path}`: {fault.message}"
  | .malformed line content =>
    s!"line {line}: `{content}` does not match `<name> <threshold> <min> <max>` or a `#` comment"

def help : TableError → Option String
  | .unreadable .. => none
  | .malformed _ content => some (Table.Hint.ofLine content.toList).text

def excerpt (line : Nat) (content : String) : String :=
  let number := toString line
  let margin := String.ofList (List.replicate number.length ' ')
  let marks := String.ofList (List.replicate (max content.length 1) '^')
  s!"\n{margin} |\n{number} | {content}\n{margin} | {marks}"

def render (e : TableError) : String :=
  let shown := match e with
    | .unreadable .. => ""
    | .malformed line content => excerpt line content
  let hint := match e.help with
    | none => ""
    | some text => s!"\n= help: {text}"
  s!"error: {e.message}{shown}{hint}"

end TableError
end Calibration
