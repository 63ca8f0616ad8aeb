import Calibration.Log
import Calibration.Table.Error
import Calibration.Table.Section

/-! # Reading a table line by line

A reader is fed one line after another. A line that cannot be read cuts the table: what came before
it is kept and nothing after it is looked at. A line that is malformed is an error and leaves only
the line number changed. Whole texts and whole files are read by the same run over their lines.
-/
namespace Calibration.Table
open Text

inductive Status where
  | complete
  | truncated (line : Nat) (content : String)
  deriving DecidableEq, Repr

def Status.isTruncated : Status → Bool
  | .complete => false
  | .truncated .. => true

structure Parsed where
  tables : Tables
  status : Status
  deriving DecidableEq

inductive Step where
  | proceed
  | stop
  deriving DecidableEq, Repr

structure Reader where
  mode : Section
  line : Nat
  tables : Tables
  status : Status
  deriving DecidableEq

def fileEntry (t : Tables) : Entry → Tables
  | .default name r => t.insertDefault name r
  | .int4 name r => t.insertInt4 name r
  | .channelScales name scales => t.insertChannelScales name scales

namespace Reader

def start : Reader := ⟨.default, 0, .empty, .complete⟩

def parsed (r : Reader) : Parsed := ⟨r.tables, r.status⟩

/-- The line as it is judged and reported: without one carriage return at its end. -/
def content (raw : String) : List Char := dropFinal '\r' raw.toList

/-- Takes in one line. Once the table is cut every line is refused and none is counted. -/
def feed (r : Reader) (raw : String) : Reader × Except TableError Step :=
  if r.status.isTruncated then (r, .ok .stop)
  else
    let line := content raw
    let r := { r with line := r.line + 1 }
    match r.mode.judge line with
    | .comment next => ({ r with mode := next }, .ok .proceed)
    | .entry e => ({ r with tables := fileEntry r.tables e }, .ok .proceed)
    | .cut => ({ r with status := .truncated r.line (String.ofList line) }, .ok .stop)
    | .malformed => (r, .error (.malformed r.line (String.ofList line)))

/-- What is reported while `raw` is taken in. -/
def notes (r : Reader) (raw : String) : List Log.Note :=
  if r.status.isTruncated then []
  else
    let line := content raw
    let number := r.line + 1
    match r.mode.judge line with
    | .comment next =>
      if next = r.mode then []
      else [⟨.debug, .tableReader,
        s!"line {number}: table section {r.mode.label} -> {next.label}"⟩]
    | .cut =>
      [⟨.warn, .tableReader,
        s!"calibration table truncated at line {number} ({r.mode.label} section): " ++
        s!"`{String.ofList line}`; later lines are ignored"⟩]
    | .entry _ | .malformed => []

def tally (r : Reader) : Log.Note :=
  ⟨.info, .tableReader,
    s!"calibration table: {r.tables.default.size} default, {r.tables.int4.size} int4, " ++
    s!"{r.tables.channelScales.size} channel-scale entries"⟩

/-- Feeds lines until one stops the reading; a line that could not be had is its own error. -/
def run (r : Reader) : List (Except TableError String) → Except TableError Reader
  | [] => .ok r
  | .error e :: _ => .error e
  | .ok raw :: rest =>
    match r.feed raw with
    | (_, .error e) => .error e
    | (next, .ok .stop) => .ok next
    | (next, .ok .proceed) => next.run rest

def runNotes (r : Reader) : List (Except TableError String) → List Log.Note
  | [] => [r.tally]
  | .error _ :: _ => []
  | .ok raw :: rest =>
    r.notes raw ++ match r.feed raw with
      | (_, .error _) => []
      | (next, .ok .stop) => [next.tally]
      | (next, .ok .proceed) => next.runNotes rest

end Reader

def parseLines (lines : List (Except TableError String)) : Except TableError Parsed :=
  (Reader.start.run lines).map Reader.parsed

def textLines (text : String) : List (Except TableError String) := (lines text).map .ok

def parseText (text : String) : Except TableError Parsed := parseLines (textLines text)

def parseTextNotes (text : String) : List Log.Note := Reader.start.runNotes (textLines text)

def fileLines (path : String) (bytes : ByteArray) : List (Except TableError String) :=
  (byteLines bytes).map fun line =>
    match Folder.decodeText line with
    | .ok text => .ok text
    | .error fault => .error (.unreadable path fault)

/-- Reads the table at `path`, of which `source` is what opening it gave. -/
def parseFile (path : String) (source : Except FileFault ByteArray) : Except TableError Parsed :=
  match source with
  | .error fault => .error (.unreadable path fault)
  | .ok bytes => parseLines (fileLines path bytes)

def parseFileNotes (path : String) (source : Except FileFault ByteArray) : List Log.Note :=
  ⟨.debug, .tableReader, s!"reading calibration table {path}"⟩ ::
    match source with
    | .error _ => []
    | .ok bytes => Reader.start.runNotes (fileLines path bytes)

end Calibration.Table
