/-
Sources of snapshots. A cell holds the snapshot published last, and may be put
out of order until the next one; a script gives fixed answers one after the
other and stays with the last.
-/
import MachinePanel.Machine.Snapshot

namespace MachinePanel

/-- A poll either gives a snapshot or fails. -/
abbrev Poll := Except SourceError Snapshot

/-- The snapshot published last, and why it cannot be had at present. -/
structure SnapshotCell where
  snapshot : Option Snapshot := none
  outage : Option String := none
  deriving DecidableEq, Repr

namespace SnapshotCell

/-- Publishes a snapshot, which ends an outage. -/
def set (_ : SnapshotCell) (s : Snapshot) : SnapshotCell :=
  ⟨some s, none⟩

/-- Edits the snapshot, or that of a new machine; this ends an outage too. -/
def modify (c : SnapshotCell) (edit : Snapshot → Snapshot) : SnapshotCell :=
  ⟨some (edit (c.snapshot.getD {})), none⟩

/-- Begins an outage; the snapshot is kept. -/
def fail (c : SnapshotCell) (reason : String) : SnapshotCell :=
  { c with outage := some reason }

/-- What is said when nothing was published yet. -/
def unpublished : String := "no snapshot published"

/-- Polls the cell. -/
def poll (c : SnapshotCell) : Poll :=
  match c.outage, c.snapshot with
  | some reason, _ => .error (.unavailable reason)
  | none, some s => .ok s
  | none, none => .error (.unavailable unpublished)

end SnapshotCell

/-- Where the status comes from: the panel's cell, or a script. -/
inductive StatusSource where
  | cell
  | script (answers : List Poll)

namespace StatusSource

/-- Polls the source, given the cell, and says what is left of it. -/
def poll (cell : SnapshotCell) : StatusSource → Poll × StatusSource
  | .cell => (cell.poll, .cell)
  | .script [] => (.error (.unavailable SnapshotCell.unpublished), .script [])
  | .script [a] => (a, .script [a])
  | .script (a :: rest) => (a, .script rest)

end StatusSource

end MachinePanel
