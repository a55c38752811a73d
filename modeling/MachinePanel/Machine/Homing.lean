/-
Homing: which joints are homed, and whether all of them are. There are two
policies for the verdict. One compares the number of homed joints with the
number of axes the machine has, the other asks every axis of the mask.
-/
import MachinePanel.Machine.AxisMask
import MachinePanel.Machine.Event

namespace MachinePanel

/-- How to judge whether all joints are homed. -/
inductive HomingPolicy where
  /-- As many joints are homed as there are axes. -/
  | countMatch
  /-- Every axis of the mask is homed. -/
  | activeAxes
  deriving DecidableEq, Repr

namespace HomingPolicy

/-- The two policies. -/
def all : List HomingPolicy := [countMatch, activeAxes]

/-- The name in records. -/
def name : HomingPolicy → String
  | countMatch => "count_match"
  | activeAxes => "active_axes"

/-- The policy of a name. -/
def ofName? (s : String) : Option HomingPolicy :=
  all.find? (·.name == s)

/-- The name in descriptions. -/
def label : HomingPolicy → String
  | countMatch => "CountMatch"
  | activeAxes => "ActiveAxes"

end HomingPolicy

/-- The homed joints, the axes that are not homed, and the number of axes. -/
structure HomingSummary where
  homed : List Nat
  unhomed : List Nat
  activeAxes : Nat
  deriving DecidableEq, Repr

namespace HomingSummary

/-- Sums up the flags of the joints. Joints outside the mask can be homed, but
only axes of the mask can be missing. -/
def scan (flags : List Bool) (mask : AxisMask) : HomingSummary :=
  let joints := flags.zipIdx
  { homed := (joints.filter (·.1)).map (·.2)
    unhomed := (joints.filter fun j => mask.contains j.2 && !j.1).map (·.2)
    activeAxes := joints.countP fun j => mask.contains j.2 }

/-- The verdict under a policy. -/
def allHomed (s : HomingSummary) : HomingPolicy → Bool
  | .countMatch => s.homed.length == s.activeAxes
  | .activeAxes => s.unhomed.isEmpty

/-- The events that report a summary: the homed joints, if there are any, and the verdict. -/
def events (s : HomingSummary) (policy : HomingPolicy) : List StatusEvent :=
  (if s.homed.isEmpty then [] else [.homed s.homed]) ++
    [if s.allHomed policy then .allHomed else .notAllHomed s.unhomed]

end HomingSummary

end MachinePanel
