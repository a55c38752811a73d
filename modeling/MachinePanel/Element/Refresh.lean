/-
One update of an element. It reads and writes pins through the view of the
round, in an order of its own, and stops at the first pin that fails; what it
has done until then stays done.
-/
import MachinePanel.Pin.View

namespace MachinePanel

variable {α β : Type}

/-- What an update leaves behind. -/
structure Refresh (α : Type) where
  element : α
  view : PinView
  /-- The error it stopped at. -/
  error : Option PinError := none
  /-- A value on its pin that selects no image. -/
  unknownImage : Option Value := none

namespace Refresh

/-- The same for an element of another type. -/
def map (f : α → β) (r : Refresh α) : Refresh β :=
  { r with element := f r.element }

end Refresh

namespace PinView

/-- Reads a pin for an element and goes on with its value. -/
def reading (view : PinView) (pin : Handle) (element : α)
    (go : Value → PinView → Refresh α) : Refresh α :=
  match view.read pin with
  | .ok (value, view) => go value view
  | .error e => { element, view, error := some e }

/-- Writes a pin for an element and goes on. -/
def writing (view : PinView) (pin : Handle) (value : Value) (element : α)
    (go : PinView → Refresh α) : Refresh α :=
  match view.write pin value with
  | .ok view => go view
  | .error e => { element, view, error := some e }

end PinView

end MachinePanel
