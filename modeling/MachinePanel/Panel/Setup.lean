/-
Setting up a panel: the cell, the source and the watchers get what is given
for them, and the driver takes over the status watcher unless it is left out.
-/
import MachinePanel.Panel.Status

namespace MachinePanel

/-- What is given for a new panel. -/
structure Setup where
  /-- The snapshot the cell starts with. -/
  cell : Option Snapshot := none
  /-- Answers that take the place of the cell. -/
  script : Option (List Poll) := none
  statusConfig : Option WatchConfig := none
  statusPolicy : Option HomingPolicy := none
  statusIntervalMs : Option Nat := none
  pinIntervalMs : Option Nat := none
  config : WatchConfig := {}
  attachStatus : Bool := true

namespace Setup

/-- The clock of an interval, or that of a default. -/
def clockOf (intervalMs : Option Nat) (default : Nanos) : Clock Unit :=
  .ofPeriod (match intervalMs with
    | some ms => Nanos.ofMillis ms
    | none => default)

/-- The status watcher. -/
def statusWatcher (s : Setup) (L : Type) : StatusWatcher L :=
  let config := s.statusConfig.getD {}
  { source := match s.script with
      | some answers => .script answers
      | none => .cell
    policy := s.statusPolicy.getD config.homingPolicy
    clock := clockOf s.statusIntervalMs config.tickInterval }

end Setup

namespace Panel

variable {L μ : Type}

/-- A new panel. -/
def new (s : Setup) (memory : μ) : Panel L μ :=
  let p : Panel L μ :=
    { cell := { snapshot := s.cell }
      status := s.statusWatcher L
      pins := { clock := Setup.clockOf s.pinIntervalMs Clock.defaultPeriod }
      driver :=
        { hasStatus := false
          config := s.config
          clock := .ofPeriod s.config.tickInterval }
      memory }
  if s.attachStatus then p.attachStatus else p

end Panel

end MachinePanel
