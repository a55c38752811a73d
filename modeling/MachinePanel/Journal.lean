/-
The journal of a panel: what it notes about its own work, each note at a level
and with named details. Notes are values; their texts are made when they are
written out.
-/
import MachinePanel.Bus
import MachinePanel.Element.Tag
import MachinePanel.Machine.Homing
import MachinePanel.Pin.Handle

namespace MachinePanel

/-- How important a note is. -/
inductive Level where
  | warn
  | debug
  | trace
  deriving DecidableEq, Repr

namespace Level

/-- The name of a level. -/
def name : Level → String
  | warn => "WARN"
  | debug => "DEBUG"
  | trace => "TRACE"

/-- How deep a level lies. -/
def depth : Level → Nat
  | warn => 0
  | debug => 1
  | trace => 2

/-- A journal kept at this level has notes of that level. -/
def includes (kept level : Level) : Bool :=
  level.depth ≤ kept.depth

end Level

/-- A note. -/
inductive Note where
  | subscriptionAdded (id : Nat) (filter : Filter)
  | subscriptionRemoved (id : Nat)
  | listenerPanicked (event : String) (message : Option String)
  | clockStarted (periodMs : Nat)
  | clockStopped
  | clockStoppedByCallback
  | pinCreated (pin : Handle)
  | pinRegistered (name : String)
  | pinDropped (name : String) (error : PinError)
  | watchingChanged (enabled : Bool)
  | policyApplied (policy : HomingPolicy)
  | pollFailed (error : SourceError)
  | driverStarted (intervalMs : Nat) (watchPins : Bool)
  | unknownImage (pin : String) (value : Value)
  | updateFailed (tag : Tag) (id : Nat) (error : PanelError)

namespace Note

/-- The level of a note. -/
def level : Note → Level
  | listenerPanicked .. | pinDropped .. | unknownImage .. | updateFailed .. => .warn
  | pollFailed _ => .trace
  | _ => .debug

/-- The message of a note. -/
def message : Note → String
  | subscriptionAdded .. => "Subscription added"
  | subscriptionRemoved _ => "Subscription removed"
  | listenerPanicked .. => "Event listener panicked"
  | clockStarted _ => "Clock started"
  | clockStopped => "Clock stopped"
  | clockStoppedByCallback => "Clock stopped by its callback"
  | pinCreated _ => "Pin created"
  | pinRegistered _ => "Pin registered"
  | pinDropped .. => "Pin read failed, removing it from the watch list"
  | watchingChanged _ => "Pin watcher enable flag changed"
  | policyApplied _ => "Applying driver homing policy to status watcher"
  | pollFailed _ => "Status poll failed, skipping tick"
  | driverStarted .. => "Tick driver started"
  | unknownImage .. => "Unknown image index"
  | updateFailed .. => "Widget update failed"

/-- The text of the number of an element. -/
def elementText (id : Nat) : String :=
  "#" ++ toString id

/-- The details of a note, by name. -/
def details : Note → List (String × String)
  | subscriptionAdded id filter => [("subscription", subscriptionText id), ("filter", filter.text)]
  | subscriptionRemoved id => [("subscription", subscriptionText id)]
  | listenerPanicked event message =>
    [("event", event), ("panic", message.getD "non-string panic payload")]
  | clockStarted periodMs => [("period_ms", toString periodMs)]
  | clockStopped | clockStoppedByCallback => []
  | pinCreated pin =>
    [("pin", pin.name), ("direction", pin.direction.name), ("pin_type", pin.type.name)]
  | pinRegistered name => [("pin", name)]
  | pinDropped name error => [("pin", name), ("error", error.message)]
  | watchingChanged enabled => [("enabled", toString enabled)]
  | policyApplied policy => [("policy", policy.label)]
  | pollFailed error => [("error", error.message)]
  | driverStarted intervalMs watchPins =>
    [("interval_ms", toString intervalMs), ("watch_pins", toString watchPins)]
  | unknownImage pin value => [("pin", pin), ("value", value.text)]
  | updateFailed tag id error =>
    [("widget", tag.name), ("id", elementText id), ("error", error.message)]

end Note

end MachinePanel
