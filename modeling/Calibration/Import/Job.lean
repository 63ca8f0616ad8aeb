import Calibration.Graph.Codec
import Calibration.Import.Files
import Calibration.Import.Table
import Calibration.Table.Codec

/-! # Import jobs and table inspection

A job reads a module, calibrates it with a table and writes it. It stops at the first stage that
fails, and writes nothing then.
-/
namespace Calibration

inductive JobError where
  | read (path : String) (fault : FileFault)
  | write (path : String) (fault : FileFault)
  | notModule
  | importing (e : ImportError)
  | table (e : TableError)
  deriving DecidableEq, Repr

namespace JobError

def message : JobError → String
  | .read path fault => s!"can't read `{path}`: {fault.message}"
  | .write path fault => s!"can't write `{path}`: {fault.message}"
  | .notModule => "malformed module JSON: the text does not describe a module"
  | .importing e => e.message
  | .table e => e.message

/-- 2 where something cannot be read or written, 1 where it cannot be calibrated. -/
def exitCode : JobError → Nat
  | .read .. | .write .. | .notModule => 2
  | .importing (.table (.unreadable ..)) | .table (.unreadable ..) => 2
  | .importing _ | .table _ => 1

def render : JobError → String
  | .importing (.table e) | .table e => e.render
  | e => s!"error: {e.message}"

end JobError

structure ImportJob where
  /-- Without a path the module comes from the standard input. -/
  graph : Option String
  table : String
  /-- Without a path the module is printed. -/
  out : Option String
  settings : Settings
  deriving DecidableEq, Repr

/-- What a run leaves besides files. -/
structure Outcome (α : Type) where
  result : Except (Stop JobError) α
  printed : String
  notes : List Log.Note

namespace ImportJob

def readModule (path : String) (source : Except FileFault ByteArray) : Except JobError Module :=
  match source.bind Folder.decodeText with
  | .error fault => .error (.read path fault)
  | .ok text =>
    match Module.ofText? text with
    | none => .error .notModule
    | some m => .ok m

/-- The text of a module as it is written. -/
def moduleText (m : Module) : String := m.toText ++ "\n"

def truncationNotes (table : String) : Table.Status → List Log.Note
  | .complete => []
  | .truncated line _ => [⟨.warn, .program, s!"{table} was only read up to line {line}"⟩]

def run {m : Type → Type} [Monad m] (job : ImportJob) (files : Files m) :
    m (Outcome ImportReport) := do
  let graph ← match job.graph with
    | some path => files.read path
    | none => files.readInput
  match readModule (job.graph.getD "<stdin>") graph with
  | .error e => return ⟨.error (.reported e), "", []⟩
  | .ok module =>
    let imported ← module.importFile job.settings job.table files
    match imported.result with
    | .error stop => return ⟨.error (stop.map .importing), "", imported.notes⟩
    | .ok report =>
      let notes := imported.notes ++ truncationNotes job.table report.status
      match job.out with
      | none => return ⟨.ok report, moduleText imported.module, notes⟩
      | some path =>
        match ← files.write path (moduleText imported.module).toUTF8 with
        | .error fault => return ⟨.error (.reported (.write path fault)), "", notes⟩
        | .ok () => return ⟨.ok report, "", notes⟩

end ImportJob

namespace Table

def Status.line : Status → String
  | .complete => "complete"
  | .truncated line content => s!"truncated at line {line}: `{content}`"

def Parsed.overview (p : Parsed) : String :=
  "\n".intercalate [
    s!"default records:       {p.tables.default.size}",
    s!"int4 records:          {p.tables.int4.size}",
    s!"weight scale vectors:  {p.tables.channelScales.size}",
    s!"status:                {p.status.line}"]

def Parsed.toText (p : Parsed) : String :=
  (Json.object [("status", .text p.status.line), ("tables", p.tables.toJson)]).pretty

def inspect (path : String) (source : Except FileFault ByteArray) : Except JobError Parsed :=
  match parseFile path source with
  | .error e => .error (.table e)
  | .ok p => .ok p

end Table
end Calibration
