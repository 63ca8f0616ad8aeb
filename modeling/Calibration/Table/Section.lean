import Calibration.Table.Grammar

/-! # The sections of a table

A comment with a marker moves the reader on: from the default records to those for four bits, and to
the channel scales, where it stays. What a line means is decided by the section alone.
-/
namespace Calibration.Table

inductive Section where
  | default
  | int4
  | weightScale
  deriving DecidableEq, Repr

inductive Entry where
  | default (name : String) (record : Record)
  | int4 (name : String) (record : Record)
  | channelScales (name : String) (scales : List Float)
  deriving DecidableEq

inductive Verdict where
  | comment (next : Section)
  | entry (e : Entry)
  /-- The line cannot be read and ends the table. -/
  | cut
  /-- The line is no line of a table at all. -/
  | malformed
  deriving DecidableEq

def int4Marker : List Char := ['#', 'i', 'n', 't', '4', '_', 't', 'h']
def weightScaleMarker : List Char :=
  ['#', 'w', 'e', 'i', 'g', 'h', 't', '_', 's', 'c', 'a', 'l', 'e']

def carries (marker : List Char) : List Char → Bool
  | [] => marker.isEmpty
  | c :: rest => marker.isPrefixOf (c :: rest) || carries marker rest

namespace Section

/-- The section after a comment. The marker of the channel scales counts first, and theirs is never
left again. -/
def afterComment (s : Section) (comment : List Char) : Section :=
  match s with
  | .weightScale => .weightScale
  | s =>
    if carries weightScaleMarker comment then .weightScale
    else if carries int4Marker comment then .int4
    else s

def label : Section → String
  | .default => "default"
  | .int4 => "int4"
  | .weightScale => "weight_scale"

/-- What a line without its line ending means in this section. -/
def judge (s : Section) (line : List Char) : Verdict :=
  if isComment line then .comment (s.afterComment line)
  else match s with
    | .default =>
      match shape? line, record? line with
      | none, _ => .malformed
      | some _, none => .cut
      | some _, some ((name, r), _) => .entry (.default (String.ofList name) r)
    | .int4 =>
      match record? line with
      | none => .cut
      | some ((name, r), _) => .entry (.int4 (String.ofList name) r)
    | .weightScale =>
      match channelScales? line with
      | none => .cut
      | some ((name, scales), _) => .entry (.channelScales (String.ofList name) scales)

end Section
end Calibration.Table
