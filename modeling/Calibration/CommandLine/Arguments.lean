import Calibration.CommandLine.Scan
import Calibration.Import.Job

/-! # The arguments of the program

The program imports a table into a module or inspects a table. How much it reports may be asked for
before or after the command, and what is asked after it counts.
-/
namespace Calibration.CommandLine

inductive Request where
  | importing (job : ImportJob)
  | inspect (table : String) (json : Bool)
  deriving DecidableEq, Repr

inductive Answer where
  | run (detail : Nat) (request : Request)
  | help
  | version
  | usage (complaint : String)
  deriving DecidableEq, Repr

def verboseSpec : OptionSpec := ⟨.verbose, "verbose", some 'v', false⟩
def helpSpec : OptionSpec := ⟨.help, "help", some 'h', false⟩

def programSpecs : List OptionSpec :=
  [verboseSpec, helpSpec, ⟨.version, "version", some 'V', false⟩]

def importSpecs : List OptionSpec :=
  [verboseSpec, helpSpec, ⟨.table, "table", none, true⟩, ⟨.asymmetric, "asymmetric", none, false⟩,
    ⟨.precision, "precision", none, true⟩, ⟨.out, "out", some 'o', true⟩]

def inspectSpecs : List OptionSpec := [verboseSpec, helpSpec, ⟨.json, "json", none, false⟩]

def precision? : String → Option Precision
  | "int8" => some .int8
  | "bf16" => some .bf16
  | "f32" => some .f32
  | _ => none

structure Given where
  verbose : Nat
  table : Option String
  asymmetric : Bool
  precision : Option Precision
  out : Option String
  json : Bool
  positional : Option String
  deriving DecidableEq, Repr

def Given.nothing : Given := ⟨0, none, false, none, none, false, none⟩

/-- Fails where something was given already. -/
def once (given : Bool) (name : String) (next : Given) : Except Answer Given :=
  if given then .error (.usage s!"{name} cannot be used multiple times") else .ok next

namespace Given

/-- Takes in one event; an answer ends the arguments early. -/
def take (g : Given) : Event → Except Answer Given
  | .flag .verbose => .ok { g with verbose := g.verbose + 1 }
  | .flag .help => .error .help
  | .flag .version => .error .version
  | .flag .asymmetric => once g.asymmetric "--asymmetric" { g with asymmetric := true }
  | .flag .json => once g.json "--json" { g with json := true }
  | .flag _ => .error (.usage "a value is required")
  | .value .table text => once g.table.isSome "--table" { g with table := some text }
  | .value .out text => once g.out.isSome "--out" { g with out := some text }
  | .value .precision text =>
    match precision? text with
    | none => .error (.usage s!"invalid value '{text}' for '--precision'")
    | some p => once g.precision.isSome "--precision" { g with precision := some p }
  | .value _ _ => .error (.usage "unexpected value")
  | .positional text =>
    if text = "" then .error (.usage "a value is required")
    else once g.positional.isSome s!"argument '{text}'" { g with positional := some text }
  | .fault complaint => .error (.usage complaint)

def takeAll (g : Given) : List Event → Except Answer Given
  | [] => .ok g
  | e :: rest => (g.take e).bind fun g => g.takeAll rest

def detail (g : Given) (before : Nat) : Nat := if g.verbose = 0 then before else g.verbose

end Given

def importAnswer (before : Nat) (args : List String) : Answer :=
  match Given.nothing.takeAll (scan importSpecs none args) with
  | .error answer => answer
  | .ok g =>
    match g.table with
    | none => .usage "the argument '--table' was not provided"
    | some table =>
      .run (g.detail before) (.importing
        { graph := g.positional, table, out := g.out
          settings := ⟨g.asymmetric, g.precision.getD .int8⟩ })

def inspectAnswer (before : Nat) (args : List String) : Answer :=
  match Given.nothing.takeAll (scan inspectSpecs none args) with
  | .error answer => answer
  | .ok g =>
    match g.positional with
    | none => .usage "the table was not provided"
    | some table => .run (g.detail before) (.inspect table g.json)

def commandNames : List String := ["import", "inspect", "help"]

def helpAnswer : List String → Answer
  | [] => .help
  | [name] => if name ∈ commandNames then .help else .usage s!"unrecognized command '{name}'"
  | _ :: name :: _ => .usage s!"unrecognized command '{name}'"

/-- The arguments of a run, after `before` requests for more detail. -/
def answer (before : Nat) : List String → Answer
  | [] => .usage "a command is required"
  | "import" :: rest => importAnswer before rest
  | "inspect" :: rest => inspectAnswer before rest
  | "help" :: rest => helpAnswer rest
  | "--" :: _ => .usage "a command is required"
  | arg :: rest =>
    match Given.nothing.takeAll (argument programSpecs arg).1 with
    | .error answer => answer
    | .ok g =>
      if g.positional.isSome then .usage s!"unrecognized command '{arg}'"
      else answer (before + g.verbose) rest

end Calibration.CommandLine
