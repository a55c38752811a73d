/-
A handle: the name, direction and type a component expects of a pin. A handle
is a plain value; whether the store has such a pin shows when it is used.
-/
import MachinePanel.Pin.Value

namespace MachinePanel

/-- What a component expects of a pin. -/
structure Handle where
  name : String
  direction : Direction
  type : ScalarType
  deriving DecidableEq, Repr

/-- The text of a handle, such as `spindle.at-speed (in bit)`. -/
def Handle.text (h : Handle) : String :=
  h.name ++ " (" ++ h.direction.name ++ " " ++ h.type.name ++ ")"

end MachinePanel
