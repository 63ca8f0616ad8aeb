import Calibration.Folder

/-! # Access to files

Whatever reads and writes files for a run: a folder held in memory, or the machine's own file system.
-/
namespace Calibration

structure Files (m : Type → Type) where
  read : String → m (Except FileFault ByteArray)
  readInput : m (Except FileFault ByteArray)
  write : String → ByteArray → m (Except FileFault Unit)

/-- Files in a folder that the run carries along, and a fixed standard input. -/
def Folder.files (input : ByteArray) : Files (StateM Folder) where
  read path := fun f => (f.read path, f)
  readInput := fun f => (.ok input, f)
  write path bytes := fun f =>
    match f.write path bytes with
    | .ok f => (.ok (), f)
    | .error fault => (.error fault, f)

end Calibration
