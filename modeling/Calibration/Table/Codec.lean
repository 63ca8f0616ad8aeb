import Calibration.Json.Decode
import Calibration.Json.Printer
import Calibration.Json.Reader
import Calibration.Table.Store

/-! # Calibration records as JSON -/
namespace Calibration
open Json

namespace Record

def toJson (r : Record) : Json :=
  .object [("threshold", .float r.threshold), ("min", .float r.min), ("max", .float r.max)]

def ofJson? (j : Json) : Option Record := do
  match ← fields? ["threshold", "min", "max"] j with
  | [threshold, min, max] =>
    let threshold ← required toFloat? threshold
    let min ← required toFloat? min
    let max ← required toFloat? max
    return ⟨threshold, min, max⟩
  | _ => none

end Record

namespace ChannelScales

def toJson (v : ChannelScales) : Json :=
  .object [("name", .text v.name), ("scales", .arr (v.scales.map .float))]

def ofJson? (j : Json) : Option ChannelScales := do
  match ← fields? ["name", "scales"] j with
  | [name, scales] =>
    let name ← required toText? name
    let scales ← required (toList? toFloat?) scales
    return ⟨name, scales⟩
  | _ => none

end ChannelScales

namespace Tables

def storeToJson {α : Type} (toJson : α → Json) (m : NameMap α) : Json :=
  .object (m.entries.map fun e => (e.1, toJson e.2))

def toJson (t : Tables) : Json :=
  .object [("default", storeToJson Record.toJson t.default),
    ("int4", storeToJson Record.toJson t.int4),
    ("channel_scales", storeToJson ChannelScales.toJson t.channelScales)]

def ofJson? (j : Json) : Option Tables := do
  match ← fields? ["default", "int4", "channel_scales"] j with
  | [default, int4, channelScales] =>
    let default ← required (toMap? Record.ofJson?) default
    let int4 ← required (toMap? Record.ofJson?) int4
    let channelScales ← required (toMap? ChannelScales.ofJson?) channelScales
    return ⟨default, int4, channelScales⟩
  | _ => none

def toText (t : Tables) : String := t.toJson.pretty

def ofText? (text : String) : Option Tables := (Json.read? text).bind ofJson?

end Tables
end Calibration
