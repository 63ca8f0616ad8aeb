/-! # Scanning arguments

Arguments are taken apart into flags, options with values and positional arguments by a table of the
options that a command knows. The first fault ends the scan, and what stands before it still counts.
-/
namespace Calibration.CommandLine

inductive Key where
  | verbose
  | help
  | version
  | table
  | asymmetric
  | precision
  | out
  | json
  deriving DecidableEq, Repr

structure OptionSpec where
  key : Key
  long : String
  short : Option Char
  takesValue : Bool
  deriving DecidableEq, Repr

inductive Event where
  | flag (key : Key)
  | value (key : Key) (text : String)
  | positional (text : String)
  | fault (complaint : String)
  deriving DecidableEq, Repr

/-- A lone dash is a value like any other. -/
def looksLikeOption (arg : String) : Bool := arg.toList.head? = some '-' && arg ≠ "-"

def valueEvent (s : OptionSpec) (text : String) : Event :=
  if text = "" then .fault s!"a value is required for '--{s.long}'" else .value s.key text

/-- Short options in one argument. One that takes a value takes the rest of the argument, after an
equals sign or without one; at the end it waits for the next argument. -/
def cluster (specs : List OptionSpec) : List Char → List Event × Option OptionSpec
  | [] => ([], none)
  | c :: rest =>
    match specs.find? fun s => s.short = some c with
    | none => ([.fault s!"unexpected argument '-{c}'"], none)
    | some s =>
      if s.takesValue then
        match rest with
        | [] => ([], some s)
        | '=' :: text => ([valueEvent s (String.ofList text)], none)
        | text => ([valueEvent s (String.ofList text)], none)
      else
        let (events, waiting) := cluster specs rest
        (.flag s.key :: events, waiting)

def long (specs : List OptionSpec) (body : List Char) : List Event × Option OptionSpec :=
  let name := body.takeWhile fun c => c ≠ '='
  match specs.find? fun s => s.long.toList = name with
  | none => ([.fault s!"unexpected argument '--{String.ofList name}'"], none)
  | some s =>
    match s.takesValue, body.dropWhile fun c => c ≠ '=' with
    | true, [] => ([], some s)
    | true, _ :: text => ([valueEvent s (String.ofList text)], none)
    | false, [] => ([.flag s.key], none)
    | false, _ :: _ => ([.fault s!"unexpected value for '--{s.long}'"], none)

/-- What one argument says, and the option that waits for its value in the next. -/
def argument (specs : List OptionSpec) (arg : String) : List Event × Option OptionSpec :=
  match arg.toList with
  | '-' :: '-' :: body => long specs body
  | ['-'] => ([.positional arg], none)
  | '-' :: short => cluster specs short
  | _ => ([.positional arg], none)

def scan (specs : List OptionSpec) (waiting : Option OptionSpec) : List String → List Event
  | [] => (waiting.map fun s => Event.fault s!"a value is required for '--{s.long}'").toList
  | arg :: rest =>
    match waiting with
    | some s =>
      if looksLikeOption arg then [.fault s!"a value is required for '--{s.long}'"]
      else valueEvent s arg :: scan specs none rest
    | none =>
      if arg = "--" then rest.map .positional
      else
        let (events, waiting) := argument specs arg
        events ++ scan specs waiting rest

end Calibration.CommandLine
