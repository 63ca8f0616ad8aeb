import Calibration.Annotation
import Calibration.Import.Files
import Calibration.Table.Reader

/-! # Calibrating a module with a table file

The state of the module is looked at before the table is.
-/
namespace Calibration

inductive ImportError where
  | table (e : TableError)
  | calibration (e : CalibrationError)
  deriving DecidableEq, Repr

def ImportError.message : ImportError → String
  | .table e => e.message
  | .calibration e => e.message

structure ImportReport where
  summary : Summary
  status : Table.Status
  deriving DecidableEq, Repr

structure Imported where
  module : Module
  result : Except (Stop ImportError) ImportReport
  notes : List Log.Note

namespace Module

variable (settings : Settings) (path : String) (source : Except FileFault ByteArray)

/-- Calibrates a module with the table at `path`, of which `source` is what opening it gave. -/
def importTable (m : Module) : Module × Except (Stop ImportError) ImportReport :=
  match m.checkState with
  | .error e => (m, .error (.reported (.calibration e)))
  | .ok () =>
    match Table.parseFile path source with
    | .error e => (m, .error (.reported (.table e)))
    | .ok parsed =>
      match m.annotate parsed.tables settings with
      | (m, .error stop) => (m, .error (stop.map .calibration))
      | (m, .ok summary) => (m, .ok ⟨summary, parsed.status⟩)

def importNotes (m : Module) : List Log.Note :=
  match m.checkState with
  | .error _ => []
  | .ok () =>
    ⟨.info, .importer,
      s!"import calibration table {path} (asymmetric: {settings.asymmetric})"⟩ ::
    Table.parseFileNotes path source ++
      match Table.parseFile path source with
      | .error _ => []
      | .ok parsed => m.annotateNotes parsed.tables settings

/-- Looks for the table at `path` only if the module may be calibrated. -/
def importFile {M : Type → Type} [Monad M] (files : Files M) (m : Module) : M Imported :=
  match m.checkState with
  | .error e => return ⟨m, .error (.reported (.calibration e)), []⟩
  | .ok () => do
    let source ← files.read path
    let out := m.importTable settings path source
    return ⟨out.1, out.2, m.importNotes settings path source⟩

end Module
end Calibration
