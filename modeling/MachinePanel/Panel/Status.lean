/-
The status watcher. An update polls the source and emits what has changed
since the last snapshot. The new snapshot is kept before anything is emitted,
so that listeners find it, and so that an update made by a listener starts
from it. A failed poll changes nothing.
-/
import MachinePanel.Panel.Basic

namespace MachinePanel.Panel

variable {L μ : Type}

/-- Polls the source of the status. -/
def pollSource (p : Panel L μ) : Poll × Panel L μ :=
  let (answer, source) := p.status.source.poll p.cell
  (answer, { p with status := { p.status with source } }.record (.polled answer p.status.policy))

/-- The notices of a list of events. -/
def statusNotices (events : List StatusEvent) : List (String × Notice) :=
  events.map fun e => (e.name, .status e)

/-- Keeps a snapshot. -/
def cache (p : Panel L μ) (s : Snapshot) : Panel L μ :=
  { p with status := { p.status with cached := some s } }

/-- Takes in the snapshot of a poll. -/
def acceptSnapshot (react : Reaction L μ) (poll : Nat) (p : Panel L μ) (s : Snapshot) :
    Panel L μ :=
  let events := changes p.status.cached s p.status.policy
  (p.cache s).emitAll react (.update poll) .status (statusNotices events)

/-- One update. -/
def updateStatus (react : Reaction L μ) (p : Panel L μ) : Panel L μ :=
  let poll := p.history.size
  match p.pollSource with
  | (.ok s, p) => p.acceptSnapshot react poll s
  | (.error e, p) => p.note (.pollFailed e)

/-- Asks displays to reload. -/
def requestReload (react : Reaction L μ) (p : Panel L μ) : Panel L μ :=
  p.emitAll react .reload .status (statusNotices [.reloadDisplay])

/-- Sets the homing policy. -/
def setPolicy (p : Panel L μ) (policy : HomingPolicy) : Panel L μ :=
  { p with status := { p.status with policy } }

/-- Puts the status watcher under the driver, whose policy it takes over. -/
def attachStatus (p : Panel L μ) : Panel L μ :=
  let policy := p.driver.config.homingPolicy
  let p := { p with driver := { p.driver with hasStatus := true } }
  if p.status.policy = policy then p else (p.note (.policyApplied policy)).setPolicy policy

end MachinePanel.Panel
