/-
The events that lead from one snapshot to the next. They come in a fixed
order: run state, mode, interpreter, file, line, tool, homing, each only if
something changed there. Three rules go beyond comparing fields:

* without a previous snapshot everything is new, and the events start with
  three that show the machine stopped, off and idle;
* leaving the powered-on state always reports `off`, once;
* entering it makes the mode and the interpreter state new.
-/
import MachinePanel.Machine.Homing
import MachinePanel.Machine.Snapshot

namespace MachinePanel.Changes

/-- The machine has just been powered on. -/
def entersOn (previous : Option Snapshot) (current : Snapshot) : Bool :=
  previous.map (·.runState) != some current.runState && current.runState == .on

/-- The machine has just been powered off. -/
def leavesOn (previous : Option Snapshot) (current : Snapshot) : Bool :=
  previous.map (·.runState) == some .on && decide (current.runState < .on)

/-- The three events before the first snapshot. -/
def bootstrap (previous : Option Snapshot) (current : Snapshot) : List StatusEvent :=
  match previous with
  | none => [if .estop < current.runState then .estopReset else .estop, .off, .interpIdle]
  | some _ => []

/-- The events on the run state. -/
def runState (previous : Option Snapshot) (current : Snapshot) : List StatusEvent :=
  if previous.map (·.runState) = some current.runState then []
  else if leavesOn previous current then
    .off :: if current.runState = .off then [] else [.ofRunState current.runState]
  else [.ofRunState current.runState]

/-- The mode to compare with: none is known after power-on. -/
def modeBaseline (previous : Option Snapshot) (current : Snapshot) : Option TaskMode :=
  if entersOn previous current then none else previous.map (·.mode)

/-- The event on the mode. -/
def mode (previous : Option Snapshot) (current : Snapshot) : List StatusEvent :=
  if modeBaseline previous current = some current.mode then [] else [.ofMode current.mode]

/-- The interpreter state to compare with: none is known after power-on. -/
def interpBaseline (previous : Option Snapshot) (current : Snapshot) : Option InterpState :=
  if entersOn previous current then none else previous.map (·.interpState)

/-- The events on the interpreter. It is reported to run when it was idle or unknown. -/
def interp (previous : Option Snapshot) (current : Snapshot) : List StatusEvent :=
  let baseline := interpBaseline previous current
  if baseline = some current.interpState then []
  else
    (if baseline = none ∨ baseline = some .idle then [.interpRun] else []) ++
      [.ofInterpState current.interpState]

/-- The event on the loaded file. -/
def file (previous : Option Snapshot) (current : Snapshot) : List StatusEvent :=
  if previous.map (·.loadedFile) = some current.loadedFile then []
  else [.fileLoaded current.loadedFile]

/-- The event on the program line. -/
def line (previous : Option Snapshot) (current : Snapshot) : List StatusEvent :=
  if previous.map (·.currentLine) = some current.currentLine then []
  else [.lineChanged current.currentLine]

/-- The event on the tool. -/
def tool (previous : Option Snapshot) (current : Snapshot) : List StatusEvent :=
  if previous.map (·.activeTool) = some current.activeTool then []
  else [.toolChanged current.activeTool]

/-- The events on homing. A change of the mask alone is none. -/
def homing (previous : Option Snapshot) (current : Snapshot) (policy : HomingPolicy) :
    List StatusEvent :=
  if previous.map (·.homed) = some current.homed then []
  else (HomingSummary.scan current.homed current.axisMask).events policy

end Changes

/-- The events that lead from the previous snapshot, if there is one, to the current one. -/
def changes (previous : Option Snapshot) (current : Snapshot) (policy : HomingPolicy) :
    List StatusEvent :=
  Changes.bootstrap previous current ++ Changes.runState previous current ++
    Changes.mode previous current ++ Changes.interp previous current ++
    Changes.file previous current ++ Changes.line previous current ++
    Changes.tool previous current ++ Changes.homing previous current policy

end MachinePanel
