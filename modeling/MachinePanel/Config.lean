/-
The configuration of a watched panel: how often it ticks, how homing is
judged, and whether its ticks poll the pins.
-/
import MachinePanel.Bounds
import MachinePanel.Json.Decode
import MachinePanel.Json.Parser
import MachinePanel.Json.Printer
import MachinePanel.Machine.Homing
import MachinePanel.Time

namespace MachinePanel

/-- The configuration of a watched panel. -/
structure WatchConfig where
  tickIntervalMs : UInt64 := 100
  homingPolicy : HomingPolicy := .countMatch
  watchPins : Bool := true
  deriving DecidableEq, Repr

namespace WatchConfig

/-- Sets the interval to the whole milliseconds of a duration, or to the
longest interval there is. -/
def withTickInterval (c : WatchConfig) (t : Nanos) : WatchConfig :=
  { c with tickIntervalMs := UInt64.ofNat (Bounds.u64.nearest t.toMillis).toNat }

/-- The interval as a duration. -/
def tickInterval (c : WatchConfig) : Nanos :=
  Nanos.ofMillis c.tickIntervalMs.toNat

/-- The configuration as a record. -/
def toJson (c : WatchConfig) : Json :=
  .record
    [("tick_interval_ms", .nat c.tickIntervalMs.toNat),
      ("homing_policy", .text c.homingPolicy.name),
      ("watch_pins", .bool c.watchPins)]

/-- The configuration as text. -/
def toText (c : WatchConfig) : String :=
  c.toJson.toText

/-- The fields of the record. -/
def recordFields : List Json.Field :=
  [⟨"tick_interval_ms", []⟩, ⟨"homing_policy", []⟩, ⟨"watch_pins", []⟩]

/-- Reads a record; what is missing keeps its default. -/
def ofJson? (v : Json) : Option WatchConfig :=
  match Json.fields .defaulted recordFields v with
  | some [interval, policy, watch] => do
    let interval ← Json.defaulting 100 (Json.asNat .u64) interval
    let policy ← Json.defaulting .countMatch (Json.asNamed HomingPolicy.ofName?) policy
    let watch ← Json.defaulting true Json.asBool watch
    some ⟨UInt64.ofNat interval, policy, watch⟩
  | _ => none

/-- Reads a text. -/
def ofText? (s : String) : Option WatchConfig :=
  (Json.parse? s).bind ofJson?

/-- The description of a configuration. -/
def text (c : WatchConfig) : String :=
  "WatchConfig \x7b tick_interval_ms: " ++ toString c.tickIntervalMs.toNat ++
    ", homing_policy: " ++ c.homingPolicy.label ++
    ", watch_pins: " ++ toString c.watchPins ++ " \x7d"

end WatchConfig

end MachinePanel
