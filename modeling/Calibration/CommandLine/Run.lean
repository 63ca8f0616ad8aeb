import Calibration.CommandLine.Arguments
import Calibration.Text.ControlSequence

/-! # Running the program

A run leaves an exit code and two texts. Reports go to the error text, before the failure they lead
to. They are shown without control sequences, the failure as it is.
-/
namespace Calibration.CommandLine

structure Ending where
  code : Nat
  out : String
  err : String
  deriving DecidableEq, Repr

def versionText : String := "calibr 0.1.0\n"

def unlines (lines : List String) : String := String.join (lines.map fun line => line ++ "\n")

def helpText : String := unlines [
  "Imports calibration tables into float compute graphs",
  "",
  "Usage: calibr [-v...] import --table FILE [--asymmetric] [--precision int8|bf16|f32]",
  "                             [--out FILE] [GRAPH]",
  "       calibr [-v...] inspect TABLE [--json]",
  "       calibr help",
  "",
  "The module is read from GRAPH or the standard input and written to the file given by --out",
  "or the standard output.",
  "",
  "Exit codes: 0 success, 1 calibration error, 2 I/O, JSON or usage error."]

def doneNote (s : Summary) : Log.Note :=
  ⟨.info, .program,
    s!"done: {s.typedValues} values, {s.weightScales} weight scales, " ++
    s!"{s.outputBoundaries} output / {s.inputBoundaries} input boundaries"⟩

def reports (detail : Nat) (notes : List Log.Note) : String :=
  String.join ((Log.lines detail notes).map fun line => Text.withoutControls (line ++ "\n"))

def failed (detail : Nat) (notes : List Log.Note) (e : JobError) : Ending :=
  ⟨e.exitCode, "", reports detail notes ++ e.render ++ "\n"⟩

/-- Nothing catches an overflow, so its own words end the run. -/
def brokenOff (detail : Nat) (notes : List Log.Note) : Ending :=
  ⟨101, "", reports detail notes ++ "attempt to add with overflow\n"⟩

def succeeded (detail : Nat) (notes : List Log.Note) (out : String) : Ending :=
  ⟨0, out, reports detail notes⟩

def Request.run {m : Type → Type} [Monad m] (files : Files m) (detail : Nat) :
    Request → m Ending
  | .importing job => do
    let outcome ← job.run files
    match outcome.result with
    | .error (.reported e) => return failed detail outcome.notes e
    | .error .overflow => return brokenOff detail outcome.notes
    | .ok report =>
      return succeeded detail (outcome.notes ++ [doneNote report.summary]) outcome.printed
  | .inspect table json => do
    let source ← files.read table
    let notes := Table.parseFileNotes table source
    match Table.inspect table source with
    | .error e => return failed detail notes e
    | .ok parsed =>
      return succeeded detail notes
        ((if json then parsed.toText else parsed.overview) ++ "\n")

def run {m : Type → Type} [Monad m] (files : Files m) (args : List String) : m Ending :=
  match answer 0 args with
  | .run detail request => request.run files detail
  | .help => return ⟨0, helpText, ""⟩
  | .version => return ⟨0, versionText, ""⟩
  | .usage complaint => return ⟨2, "", s!"error: {complaint}\n\n{helpText}"⟩

end Calibration.CommandLine
