/-
A snapshot of the machine: everything its controller reports at one moment.
-/
import MachinePanel.Machine.AxisMask
import MachinePanel.Machine.State

namespace MachinePanel

/-- What the controller reports at one moment. A new machine stands in the
emergency stop with nothing loaded. -/
structure Snapshot where
  runState : RunState := .estop
  mode : TaskMode := .manual
  interpState : InterpState := .idle
  homed : List Bool := []
  axisMask : AxisMask := .none
  loadedFile : Option String := none
  currentLine : Int32 := 0
  activeTool : Int32 := 0
  deriving DecidableEq, Repr

namespace Snapshot

/-- The number of joints. -/
def jointCount (s : Snapshot) : Nat :=
  s.homed.length

/-- The joint exists and is homed. -/
def isHomed (s : Snapshot) (index : Nat) : Bool :=
  s.homed.getD index false

end Snapshot

end MachinePanel
