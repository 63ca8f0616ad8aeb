import Calibration.Location
import Calibration.NameMap

/-! # Files

A folder is the tree of files as it is seen from a working folder. Of the folders around that only
what has been put there is known. Whatever can go wrong with a file is named in the words of the
operating system.
-/
namespace Calibration

inductive FileFault where
  | system (words : String) (code : Nat)
  | nulInPath
  | notUtf8
  deriving DecidableEq, Repr

namespace FileFault

def notFound : FileFault := .system "No such file or directory" 2
def notDirectory : FileFault := .system "Not a directory" 20
def isDirectory : FileFault := .system "Is a directory" 21
def nameTooLong : FileFault := .system "File name too long" 36

def message : FileFault → String
  | .system words code => s!"{words} (os error {code})"
  | .nulInPath => "file name contained an unexpected NUL byte"
  | .notUtf8 => "stream did not contain valid UTF-8"

end FileFault

inductive FileNode where
  | file (bytes : ByteArray)
  | directory

structure Folder where
  /-- What stands at each place, under the shortest path to it. -/
  nodes : NameMap FileNode

namespace Folder

def empty : Folder := ⟨.empty⟩

def nameLimit : Nat := 255

def pathLimit : Nat := 4095

/-- What stands at a place. The working folder, the root and what is around them are folders. -/
def node? (f : Folder) (l : Location) : Option FileNode :=
  if l.names.isEmpty then some .directory else f.nodes.get? l.path

def put (f : Folder) (l : Location) (node : FileNode) : Folder :=
  ⟨f.nodes.insert l.path node⟩

/-- One step of a path. Every step is taken from a folder, also one that leads nowhere else. -/
def step (f : Folder) (l : Location) (name : String) : Except FileFault Location :=
  match f.node? l with
  | none => .error .notFound
  | some (.file _) => .error .notDirectory
  | some .directory =>
    if name = "" ∨ name = "." then .ok l
    else if name = ".." then .ok l.parent
    else if nameLimit < name.utf8ByteSize then .error .nameTooLong
    else .ok (l.child name)

def follow (f : Folder) (l : Location) : List String → Except FileFault Location
  | [] => .ok l
  | name :: rest => (f.step l name).bind fun next => f.follow next rest

/-- The place to which these steps of a path lead. What is wrong with the path as a whole comes before
what is found on the way. -/
def locate (f : Folder) (path : String) (steps : List String) : Except FileFault Location :=
  if path.toList.contains '\x00' then .error .nulInPath
  else if path = "" then .error .notFound
  else if pathLimit < path.utf8ByteSize then .error .nameTooLong
  else f.follow (.start path) steps

/-- What a path leads to; `none` is a free name. -/
def find (f : Folder) (path : String) : Except FileFault (Option FileNode) :=
  (f.locate path (Location.steps path)).map f.node?

def read (f : Folder) (path : String) : Except FileFault ByteArray :=
  match f.find path with
  | .error fault => .error fault
  | .ok none => .error .notFound
  | .ok (some .directory) => .error .isDirectory
  | .ok (some (.file bytes)) => .ok bytes

def decodeText (bytes : ByteArray) : Except FileFault String :=
  match String.fromUTF8? bytes with
  | some text => .ok text
  | none => .error .notUtf8

theorem decodeText_toUTF8 (text : String) : decodeText text.toUTF8 = .ok text := by
  have hvalid : text.toUTF8.IsValidUTF8 := text.isValidUTF8
  rw [decodeText, String.fromUTF8?, dif_pos hvalid]
  rfl

def readText (f : Folder) (path : String) : Except FileFault String :=
  (f.read path).bind decodeText

def write (f : Folder) (path : String) (bytes : ByteArray) : Except FileFault Folder :=
  match f.locate path (Location.stepsToWrite path) with
  | .error fault => .error fault
  | .ok l =>
    match f.node? l with
    | some .directory => .error .isDirectory
    | _ => .ok (f.put l (.file bytes))

theorem node?_put (f : Folder) (l : Location) (node : FileNode) (h : l.names ≠ []) :
    (f.put l node).node? l = some node := by
  simp [node?, put, h]

end Folder
end Calibration
