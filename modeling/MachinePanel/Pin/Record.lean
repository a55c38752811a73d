/-
Pins as records: handles, values, and the one event on pins.
-/
import MachinePanel.Json.Decode
import MachinePanel.Pin.Handle

namespace MachinePanel

namespace Handle

/-- The record of a handle. -/
def toJson (h : Handle) : Json :=
  .record
    [("name", .text h.name), ("direction", .text h.direction.name), ("pin_type", .text h.type.name)]

/-- Reads a record; all its fields have to be there. -/
def ofJson? (v : Json) : Option Handle :=
  match Json.fields .strict [⟨"name", []⟩, ⟨"direction", []⟩, ⟨"pin_type", []⟩] v with
  | some [name, direction, type] => do
    let name ← Json.required Json.asString name
    let direction ← Json.required (Json.asNamed Direction.ofName?) direction
    let type ← Json.required (Json.asNamed ScalarType.ofName?) type
    some ⟨name, direction, type⟩
  | _ => none

end Handle

namespace Value

/-- Reads the scalar of a type. -/
def ofScalar? (v : Json) : ScalarType → Option Value
  | .bit => (Json.asBool v).map bit
  | .s32 => (Json.asInt32 v).map s32
  | .u32 => (Json.asUInt32 v).map u32
  | .float => (Json.asFloat v).map float

/-- Reads a tagged value: its type beside its scalar. -/
def ofJson? (v : Json) : Option Value :=
  match Json.tagged "type" "value" v with
  | some (tag, some scalar) => (ScalarType.ofName? tag).bind (ofScalar? scalar)
  | _ => none

end Value

/-- The event that the value of a pin has changed. -/
structure PinEvent where
  pin : String
  deriving DecidableEq, Repr

namespace PinEvent

/-- The name of the event. -/
def name (_ : PinEvent) : String := "value-changed"

/-- The record of the event. -/
def toJson (e : PinEvent) : Json :=
  .record [("pin", .text e.pin)]

/-- Reads a record. -/
def ofJson? (v : Json) : Option PinEvent :=
  match Json.fields .strict [⟨"pin", []⟩] v with
  | some [pin] => (Json.required Json.asString pin).map PinEvent.mk
  | _ => none

end PinEvent

end MachinePanel
