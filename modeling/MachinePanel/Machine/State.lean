/-
The three states a machine controller reports: its run state, ordered from the
emergency stop up to powered on, the task mode, and the state of the program
interpreter. Each has a numeric code and a name.
-/
import MachinePanel.Error

namespace MachinePanel

/-- The run state, from the emergency stop to powered on. -/
inductive RunState where
  | estop
  | estopReset
  | off
  | on
  deriving DecidableEq, Repr

namespace RunState

/-- The run states from the lowest to the highest. -/
def all : List RunState := [estop, estopReset, off, on]

/-- The code of a run state, which also orders them. -/
def code : RunState → Nat
  | estop => 1
  | estopReset => 2
  | off => 3
  | on => 4

/-- The run state of a code. -/
def ofCode (code : Int) : Except ValueError RunState :=
  match all.find? (fun s => (s.code : Int) == code) with
  | some s => .ok s
  | none => .error (.invalidRunState code)

/-- The name in records. -/
def name : RunState → String
  | estop => "estop"
  | estopReset => "estop_reset"
  | off => "off"
  | on => "on"

/-- The run state of a name. -/
def ofName? (s : String) : Option RunState :=
  all.find? (·.name == s)

/-- The name for people. -/
def text : RunState → String
  | estopReset => "estop-reset"
  | s => s.name

instance : LT RunState := ⟨fun a b => a.code < b.code⟩

instance (a b : RunState) : Decidable (a < b) :=
  inferInstanceAs (Decidable (a.code < b.code))

instance : LE RunState := ⟨fun a b => a.code ≤ b.code⟩

instance (a b : RunState) : Decidable (a ≤ b) :=
  inferInstanceAs (Decidable (a.code ≤ b.code))

/-- Sorts run states from the lowest to the highest. -/
def sort (states : List RunState) : List RunState :=
  states.mergeSort fun a b => decide (a ≤ b)

theorem ofCode_code (s : RunState) : ofCode s.code = .ok s := by
  cases s <;> rfl

end RunState

/-- The task mode. -/
inductive TaskMode where
  | manual
  | auto
  | mdi
  deriving DecidableEq, Repr

namespace TaskMode

/-- The task modes. -/
def all : List TaskMode := [manual, auto, mdi]

/-- The code of a task mode. -/
def code : TaskMode → Nat
  | manual => 1
  | auto => 2
  | mdi => 3

/-- The task mode of a code. -/
def ofCode (code : Int) : Except ValueError TaskMode :=
  match all.find? (fun s => (s.code : Int) == code) with
  | some s => .ok s
  | none => .error (.invalidTaskMode code)

/-- The name in records. -/
def name : TaskMode → String
  | manual => "manual"
  | auto => "auto"
  | mdi => "mdi"

/-- The task mode of a name. -/
def ofName? (s : String) : Option TaskMode :=
  all.find? (·.name == s)

theorem ofCode_code (s : TaskMode) : ofCode s.code = .ok s := by
  cases s <;> rfl

end TaskMode

/-- The state of the program interpreter. -/
inductive InterpState where
  | idle
  | reading
  | paused
  | waiting
  deriving DecidableEq, Repr

namespace InterpState

/-- The interpreter states. -/
def all : List InterpState := [idle, reading, paused, waiting]

/-- The code of an interpreter state. -/
def code : InterpState → Nat
  | idle => 1
  | reading => 2
  | paused => 3
  | waiting => 4

/-- The interpreter state of a code. -/
def ofCode (code : Int) : Except ValueError InterpState :=
  match all.find? (fun s => (s.code : Int) == code) with
  | some s => .ok s
  | none => .error (.invalidInterpState code)

/-- The name in records. -/
def name : InterpState → String
  | idle => "idle"
  | reading => "reading"
  | paused => "paused"
  | waiting => "waiting"

/-- The interpreter state of a name. -/
def ofName? (s : String) : Option InterpState :=
  all.find? (·.name == s)

theorem ofCode_code (s : InterpState) : ofCode s.code = .ok s := by
  cases s <;> rfl

end InterpState

end MachinePanel
