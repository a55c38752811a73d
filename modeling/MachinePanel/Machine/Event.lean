/-
Events on the status of a machine. Each has a name, under which it is emitted.
-/
import MachinePanel.Machine.State

namespace MachinePanel

/-- A change of the machine's status. -/
inductive StatusEvent where
  | estop
  | estopReset
  | on
  | off
  | modeManual
  | modeAuto
  | modeMdi
  | interpRun
  | interpIdle
  | interpReading
  | interpPaused
  | interpWaiting
  | homed (joints : List Nat)
  | allHomed
  | notAllHomed (joints : List Nat)
  | fileLoaded (path : Option String)
  | lineChanged (line : Int32)
  | toolChanged (tool : Int32)
  | reloadDisplay
  deriving DecidableEq, Repr

namespace StatusEvent

/-- The name an event is emitted under. -/
def name : StatusEvent → String
  | estop => "estop"
  | estopReset => "estop-reset"
  | on => "on"
  | off => "off"
  | modeManual => "mode-manual"
  | modeAuto => "mode-auto"
  | modeMdi => "mode-mdi"
  | interpRun => "interp-run"
  | interpIdle => "interp-idle"
  | interpReading => "interp-reading"
  | interpPaused => "interp-paused"
  | interpWaiting => "interp-waiting"
  | homed _ => "homed"
  | allHomed => "all-homed"
  | notAllHomed _ => "not-all-homed"
  | fileLoaded _ => "file-loaded"
  | lineChanged _ => "line-changed"
  | toolChanged _ => "tool-changed"
  | reloadDisplay => "reload-display"

/-- The event reports a run state. -/
def isRunState : StatusEvent → Bool
  | estop | estopReset | on | off => true
  | _ => false

/-- The event is about homing. -/
def isHoming : StatusEvent → Bool
  | homed _ | allHomed | notAllHomed _ => true
  | _ => false

/-- The event that reports a run state. -/
def ofRunState : RunState → StatusEvent
  | .estop => estop
  | .estopReset => estopReset
  | .off => off
  | .on => on

/-- The event that reports a task mode. -/
def ofMode : TaskMode → StatusEvent
  | .manual => modeManual
  | .auto => modeAuto
  | .mdi => modeMdi

/-- The event that reports an interpreter state. -/
def ofInterpState : InterpState → StatusEvent
  | .idle => interpIdle
  | .reading => interpReading
  | .paused => interpPaused
  | .waiting => interpWaiting

end StatusEvent

end MachinePanel
