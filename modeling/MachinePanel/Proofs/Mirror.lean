/-
A mirror of the machine, kept by someone who hears nothing but the events.
The events between two snapshots take the mirror of the one to that of the
other (`foldl_changes`), although the first ones ever show a state the machine
need not be in, and although a batch on homing may leave out the homed joints.
So whoever has heard all events knows the snapshot kept (`run_mirrors`).
-/
import MachinePanel.Proofs.Homing
import MachinePanel.Proofs.Updates

namespace MachinePanel

/-- What can be known of the machine from its events. -/
structure Mirror where
  runState : Option RunState := none
  mode : Option TaskMode := none
  interpState : Option InterpState := none
  loadedFile : Option (Option String) := none
  currentLine : Option Int32 := none
  activeTool : Option Int32 := none
  /-- The joints named in the last batch of events on homing. -/
  homed : List Nat := []
  /-- The joints named in a batch that has not come to its verdict yet. -/
  named : List Nat := []
  deriving DecidableEq, Repr

namespace Snapshot

/-- The homed joints in ascending order. -/
def homedJoints (s : Snapshot) : List Nat :=
  (List.range s.jointCount).filter s.isHomed

end Snapshot

namespace Mirror

/-- Takes in an event. -/
def take (m : Mirror) : StatusEvent → Mirror
  | .estop => { m with runState := some .estop }
  | .estopReset => { m with runState := some .estopReset }
  | .off => { m with runState := some .off }
  | .on => { m with runState := some .on }
  | .modeManual => { m with mode := some .manual }
  | .modeAuto => { m with mode := some .auto }
  | .modeMdi => { m with mode := some .mdi }
  | .interpIdle => { m with interpState := some .idle }
  | .interpReading => { m with interpState := some .reading }
  | .interpPaused => { m with interpState := some .paused }
  | .interpWaiting => { m with interpState := some .waiting }
  | .fileLoaded path => { m with loadedFile := some path }
  | .lineChanged line => { m with currentLine := some line }
  | .toolChanged tool => { m with activeTool := some tool }
  | .homed joints => { m with named := joints }
  | .allHomed | .notAllHomed _ => { m with homed := m.named, named := [] }
  | .interpRun | .reloadDisplay => m

/-- The mirror of a snapshot. -/
def of (s : Snapshot) : Mirror where
  runState := some s.runState
  mode := some s.mode
  interpState := some s.interpState
  loadedFile := some s.loadedFile
  currentLine := some s.currentLine
  activeTool := some s.activeTool
  homed := s.homedJoints

/-- The mirror of the snapshot kept. -/
def ofCached : Option Snapshot → Mirror
  | none => {}
  | some s => of s

@[simp] theorem take_ofRunState (m : Mirror) (r : RunState) :
    m.take (.ofRunState r) = { m with runState := some r } := by
  cases r <;> rfl

@[simp] theorem take_ofMode (m : Mirror) (mode : TaskMode) :
    m.take (.ofMode mode) = { m with mode := some mode } := by
  cases mode <;> rfl

@[simp] theorem take_ofInterpState (m : Mirror) (i : InterpState) :
    m.take (.ofInterpState i) = { m with interpState := some i } := by
  cases i <;> rfl

/-! ## One segment at a time -/

variable {previous : Option Snapshot} {s : Snapshot} {policy : HomingPolicy} {m : Mirror}

/-- What is known of something that has not changed is still right. -/
theorem known_of_same {α : Type} {get : Snapshot → α} {known : Option α} {a : α}
    (heq : previous.map get = some a) (h : ∀ old, previous = some old → known = some (get old)) :
    known = some a := by
  obtain ⟨old, rfl, rfl⟩ := Option.map_eq_some_iff.1 heq
  exact h old rfl

theorem foldl_runState (h : ∀ old, previous = some old → m.runState = some old.runState) :
    (Changes.runState previous s).foldl take m = { m with runState := some s.runState } := by
  unfold Changes.runState
  split
  · next heq =>
    rw [← known_of_same heq h]
    rfl
  · split
    · split
      · next hoff =>
        rw [hoff]
        rfl
      · simp only [List.foldl_cons, List.foldl_nil, take_ofRunState]
        rfl
    · simp only [List.foldl_cons, List.foldl_nil, take_ofRunState]

theorem foldl_mode (h : ∀ old, previous = some old → m.mode = some old.mode) :
    (Changes.mode previous s).foldl take m = { m with mode := some s.mode } := by
  unfold Changes.mode
  split
  · next heq =>
    unfold Changes.modeBaseline at heq
    split at heq
    · cases heq
    · obtain ⟨old, rfl, hold⟩ := Option.map_eq_some_iff.1 heq
      have hm : m.mode = some s.mode := by rw [h old rfl, hold]
      rw [← hm]
      rfl
  · simp only [List.foldl_cons, List.foldl_nil, take_ofMode]

theorem foldl_interp (h : ∀ old, previous = some old → m.interpState = some old.interpState) :
    (Changes.interp previous s).foldl take m = { m with interpState := some s.interpState } := by
  unfold Changes.interp
  simp only
  split
  · next heq =>
    unfold Changes.interpBaseline at heq
    split at heq
    · cases heq
    · obtain ⟨old, rfl, hold⟩ := Option.map_eq_some_iff.1 heq
      have hm : m.interpState = some s.interpState := by rw [h old rfl, hold]
      rw [← hm]
      rfl
  · rw [List.foldl_append]
    split
    · simp only [List.foldl_cons, List.foldl_nil, take_ofInterpState]
      rfl
    · simp only [List.foldl_cons, List.foldl_nil, take_ofInterpState]

theorem foldl_file (h : ∀ old, previous = some old → m.loadedFile = some old.loadedFile) :
    (Changes.file previous s).foldl take m = { m with loadedFile := some s.loadedFile } := by
  unfold Changes.file
  split
  · next heq =>
    rw [← known_of_same heq h]
    rfl
  · rfl

theorem foldl_line (h : ∀ old, previous = some old → m.currentLine = some old.currentLine) :
    (Changes.line previous s).foldl take m = { m with currentLine := some s.currentLine } := by
  unfold Changes.line
  split
  · next heq =>
    rw [← known_of_same heq h]
    rfl
  · rfl

theorem foldl_tool (h : ∀ old, previous = some old → m.activeTool = some old.activeTool) :
    (Changes.tool previous s).foldl take m = { m with activeTool := some s.activeTool } := by
  unfold Changes.tool
  split
  · next heq =>
    rw [← known_of_same heq h]
    rfl
  · rfl

/-- A batch names the homed joints before its verdict, unless there are none. -/
theorem foldl_events (summary : HomingSummary) (h : m.named = []) :
    (summary.events policy).foldl take m = { m with homed := summary.homed } := by
  have hverdict : ∀ (n : Mirror) (b : Bool),
      n.take (if b then .allHomed else .notAllHomed summary.unhomed) =
        { n with homed := n.named, named := [] } := by
    intro n b
    cases b <;> rfl
  unfold HomingSummary.events
  rw [List.foldl_append]
  split
  · next hempty =>
    simp only [List.foldl_cons, List.foldl_nil, hverdict]
    rw [List.isEmpty_iff.1 hempty, h]
  · simp only [List.foldl_cons, List.foldl_nil, hverdict]
    rw [take]
    simp only
    rw [← h]

theorem foldl_homing (h : ∀ old, previous = some old → m.homed = old.homedJoints)
    (hnamed : m.named = []) :
    (Changes.homing previous s policy).foldl take m = { m with homed := s.homedJoints } := by
  unfold Changes.homing
  split
  · next heq =>
    obtain ⟨old, rfl, hold⟩ := Option.map_eq_some_iff.1 heq
    have hm : m.homed = s.homedJoints := by
      have hflags : old.isHomed = s.isHomed := by
        funext i
        rw [Snapshot.isHomed, hold, Snapshot.isHomed]
      rw [h old rfl, Snapshot.homedJoints, Snapshot.jointCount, hold, hflags]
      rfl
    rw [← hm]
    rfl
  · rw [foldl_events _ hnamed, HomingSummary.homed_scan]
    rfl

/-! ## A whole update -/

theorem foldl_bootstrap (previous : Option Snapshot) (s : Snapshot) :
    ∃ m, (Changes.bootstrap previous s).foldl take (ofCached previous) = m ∧
      (∀ old, previous = some old → m = of old) ∧ m.named = [] := by
  cases previous with
  | none =>
    refine ⟨_, rfl, by simp, ?_⟩
    unfold Changes.bootstrap
    simp only [List.foldl_cons, List.foldl_nil]
    split <;> rfl
  | some old => exact ⟨of old, rfl, by simp, rfl⟩

/-- **The events between two snapshots take the mirror of the one to that of the other.** -/
theorem foldl_changes (previous : Option Snapshot) (s : Snapshot) (policy : HomingPolicy) :
    (changes previous s policy).foldl take (ofCached previous) = of s := by
  obtain ⟨m, hm, hold, hnamed⟩ := foldl_bootstrap previous s
  let m₁ : Mirror := { m with runState := some s.runState }
  let m₂ : Mirror := { m₁ with mode := some s.mode }
  let m₃ : Mirror := { m₂ with interpState := some s.interpState }
  let m₄ : Mirror := { m₃ with loadedFile := some s.loadedFile }
  let m₅ : Mirror := { m₄ with currentLine := some s.currentLine }
  let m₆ : Mirror := { m₅ with activeTool := some s.activeTool }
  -- No segment touches what the later ones go by.
  have h₁ : (Changes.runState previous s).foldl take m = m₁ :=
    foldl_runState fun old ho => congrArg Mirror.runState (hold old ho)
  have h₂ : (Changes.mode previous s).foldl take m₁ = m₂ :=
    foldl_mode fun old ho => congrArg Mirror.mode (hold old ho)
  have h₃ : (Changes.interp previous s).foldl take m₂ = m₃ :=
    foldl_interp fun old ho => congrArg Mirror.interpState (hold old ho)
  have h₄ : (Changes.file previous s).foldl take m₃ = m₄ :=
    foldl_file fun old ho => congrArg Mirror.loadedFile (hold old ho)
  have h₅ : (Changes.line previous s).foldl take m₄ = m₅ :=
    foldl_line fun old ho => congrArg Mirror.currentLine (hold old ho)
  have h₆ : (Changes.tool previous s).foldl take m₅ = m₆ :=
    foldl_tool fun old ho => congrArg Mirror.activeTool (hold old ho)
  have h₇ : (Changes.homing previous s policy).foldl take m₆ = { m₆ with homed := s.homedJoints } :=
    foldl_homing (fun old ho => congrArg Mirror.homed (hold old ho)) hnamed
  simp only [changes, List.foldl_append]
  rw [hm, h₁, h₂, h₃, h₄, h₅, h₆, h₇]
  simp only [of, m₆, m₅, m₄, m₃, m₂, m₁, hnamed]

theorem foldl_linked {updates : List Update} {cached : Option Snapshot}
    (h : Linked cached updates) :
    (updates.flatMap (·.events)).foldl take (ofCached cached) =
      ofCached ((updates.getLast?.map (·.snapshot)).or cached) := by
  induction updates generalizing cached with
  | nil => rfl
  | cons u rest ih =>
    rw [List.flatMap_cons, List.foldl_append, h.1, foldl_changes]
    refine (ih h.2).trans ?_
    cases rest with
    | nil => rfl
    | cons v rest => simp [List.getLast?_cons]

/-- Requests to reload tell nothing. -/
theorem foldl_filter_reload (events : List StatusEvent) (m : Mirror) :
    (events.filter (· != .reloadDisplay)).foldl take m = events.foldl take m := by
  induction events generalizing m with
  | nil => rfl
  | cons e rest ih =>
    rw [List.filter_cons]
    split
    · exact ih _
    · next he =>
      have he : e = .reloadDisplay := by simpa using he
      rw [he]
      exact ih m

end Mirror

open Panel

variable {L μ : Type}

/-- **Whoever has heard all events knows the snapshot kept**, which is the last
one that was got: after every run from a new panel in which no listener makes
an update, the mirror of the events is that of the snapshot. -/
theorem run_mirrors {conduct : Conduct L μ} (h : AvoidsUpdates conduct) (depth : Nat)
    (setup : Setup) (memory : μ) (steps : List (Step L μ)) :
    let p := (Panel.new setup memory).run (conduct.react depth) steps
    p.status.cached = (snapshotsGot p.past).getLast? ∧
      (statusEvents p.past).foldl Mirror.take {} = Mirror.ofCached p.status.cached := by
  intro p
  obtain ⟨hlinked, hevents, hcached⟩ := run_reports h depth setup memory steps
  refine ⟨hcached, ?_⟩
  have hfold := Mirror.foldl_linked hlinked
  rw [← hevents, Option.or_none, ← List.getLast?_map, map_updatesIn, ← hcached] at hfold
  exact (Mirror.foldl_filter_reload _ _).symm.trans hfold

theorem run_mirrors_briefScript :
    let p : Panel Unit Unit := (Panel.new { script := some briefScript } ()).run (meddling.react 3)
      [.operation (.subscribe .status .any ()), .operation .updateStatus,
        .operation .updateStatus, .operation .updateStatus]
    AvoidsUpdates (meddling (L := Unit) (μ := Unit)) ∧
      p.status.cached = some { runState := .estop, homed := [false] } ∧
      p.status.cached = (snapshotsGot p.past).getLast? ∧
      (statusEvents p.past).foldl Mirror.take {} = Mirror.ofCached p.status.cached := by
  refine ⟨meddling_avoidsUpdates, ?_, run_mirrors meddling_avoidsUpdates 3 _ _ _⟩
  rfl

end MachinePanel
