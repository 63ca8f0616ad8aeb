import Calibration.Text.Split

/-! # Places in the tree of files

A path is followed step by step, from the working folder or from the root of the tree. What the folders
around the working folder are called is not known, so places outside it are told apart by the number
of steps up that lead to them.
-/
namespace Calibration

structure Location where
  /-- Whether the names are counted from the root and not from the working folder. -/
  rooted : Bool
  /-- The steps up before the first name. -/
  above : Nat
  /-- The names from there on, the last one first. -/
  names : List String
  deriving DecidableEq, Repr

namespace Location

def working : Location := ⟨false, 0, []⟩
def root : Location := ⟨true, 0, []⟩

/-- The folder around a place; the root is around itself. -/
def parent (l : Location) : Location :=
  match l.names with
  | _ :: names => { l with names }
  | [] => if l.rooted then l else { l with above := l.above + 1 }

def child (l : Location) (name : String) : Location := { l with names := name :: l.names }

def path (l : Location) : String :=
  (if l.rooted then "/" else "")
    ++ "/".intercalate (List.replicate l.above ".." ++ l.names.reverse)

def start (path : String) : Location :=
  if path.toList.head? = some '/' then root else working

/-- The steps of a path. Beside names there are two dots for the folder around a place, and one dot or
nothing for the place itself. -/
def steps (path : String) : List String :=
  (Text.pieces (fun c => c = '/') path.toList).map String.ofList

/-- The steps to a file that is to be written. A path that ends in a slash is that of a folder,
whether it is there or not, and the folder around it stands for it. -/
def stepsToWrite (path : String) : List String :=
  match (steps path).reverse with
  | "" :: rest => (rest.dropWhile String.isEmpty).tail.reverse ++ ["."]
  | _ => steps path

@[simp] theorem parent_child (l : Location) (name : String) : (l.child name).parent = l := rfl

end Location
end Calibration
