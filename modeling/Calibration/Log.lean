/-! # Log records

What a run reports besides its result. The reports of a step are given by functions of their own, so
that results can be reasoned about without them.
-/
namespace Calibration.Log

inductive Level where
  | warn
  | info
  | debug
  deriving DecidableEq, Repr

inductive Source where
  | tableReader
  | annotator
  | importer
  | program
  deriving DecidableEq, Repr

structure Note where
  level : Level
  source : Source
  message : String
  deriving DecidableEq, Repr

def Level.label : Level → String
  | .warn => "WARN"
  | .info => "INFO"
  | .debug => "DEBUG"

def Level.detail : Level → Nat
  | .warn => 0
  | .info => 1
  | .debug => 2

def Source.label : Source → String
  | .tableReader => "calibr_parser::parser"
  | .annotator => "calibr_annotate::annotator"
  | .importer => "calibr_annotate::import"
  | .program => "calibr"

def Note.line (n : Note) : String := s!"[{n.level.label}] {n.source.label}: {n.message}"

def lines (detail : Nat) (notes : List Note) : List String :=
  (notes.filter fun n => decide (n.level.detail ≤ detail)).map Note.line

end Calibration.Log
