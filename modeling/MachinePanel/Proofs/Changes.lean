/-
What the events between two snapshots look like. They come in segments, each
about one aspect of the machine; only the opening of the first update mixes
two. Leaving and entering the powered-on state decide how the segment on the
run state looks (`runState_cases`), and with it all that follows.
-/
import MachinePanel.Machine.Changes

namespace MachinePanel

/-- What an event can be about. -/
inductive Aspect where
  | runState
  | mode
  | interp
  | file
  | line
  | tool
  | homing
  | display
  deriving DecidableEq, Repr

namespace StatusEvent

/-- What the event is about. -/
def aspect : StatusEvent → Aspect
  | estop | estopReset | on | off => .runState
  | modeManual | modeAuto | modeMdi => .mode
  | interpRun | interpIdle | interpReading | interpPaused | interpWaiting => .interp
  | homed _ | allHomed | notAllHomed _ => .homing
  | fileLoaded _ => .file
  | lineChanged _ => .line
  | toolChanged _ => .tool
  | reloadDisplay => .display

theorem isRunState_iff (e : StatusEvent) : e.isRunState = true ↔ e.aspect = .runState := by
  cases e <;> simp [isRunState, aspect]

@[simp] theorem aspect_ofRunState (r : RunState) : (ofRunState r).aspect = .runState := by
  cases r <;> rfl

@[simp] theorem aspect_ofMode (m : TaskMode) : (ofMode m).aspect = .mode := by
  cases m <;> rfl

@[simp] theorem aspect_ofInterpState (i : InterpState) : (ofInterpState i).aspect = .interp := by
  cases i <;> rfl

theorem ofRunState_injective {r r' : RunState} (h : ofRunState r = ofRunState r') : r = r' := by
  cases r <;> cases r' <;> first | rfl | cases h

end StatusEvent

namespace Changes

variable {previous : Option Snapshot} {old s : Snapshot} {policy : HomingPolicy} {e : StatusEvent}

theorem entersOn_iff : entersOn previous s = true ↔
    previous.map (·.runState) ≠ some .on ∧ s.runState = .on := by
  simp only [entersOn, Bool.and_eq_true, bne_iff_ne, beq_iff_eq]
  constructor
  · rintro ⟨hne, hon⟩
    exact ⟨hon ▸ hne, hon⟩
  · rintro ⟨hne, hon⟩
    exact ⟨hon.symm ▸ hne, hon⟩

theorem aspect_of_mem_runState (h : e ∈ runState previous s) : e.aspect = .runState := by
  unfold runState at h
  split at h
  · cases h
  · split at h
    · rcases List.mem_cons.1 h with rfl | h
      · rfl
      · split at h
        · cases h
        · rw [List.mem_singleton.1 h, StatusEvent.aspect_ofRunState]
    · rw [List.mem_singleton.1 h, StatusEvent.aspect_ofRunState]

theorem aspect_of_mem_mode (h : e ∈ mode previous s) : e.aspect = .mode := by
  unfold mode at h
  split at h
  · cases h
  · rw [List.mem_singleton.1 h, StatusEvent.aspect_ofMode]

theorem aspect_of_mem_interp (h : e ∈ interp previous s) : e.aspect = .interp := by
  unfold interp at h
  simp only at h
  split at h
  · cases h
  · rcases List.mem_append.1 h with h | h
    · split at h
      · rw [List.mem_singleton.1 h]
        rfl
      · cases h
    · rw [List.mem_singleton.1 h, StatusEvent.aspect_ofInterpState]

theorem aspect_of_mem_file (h : e ∈ file previous s) : e.aspect = .file := by
  unfold file at h
  split at h
  · cases h
  · rw [List.mem_singleton.1 h]
    rfl

theorem aspect_of_mem_line (h : e ∈ line previous s) : e.aspect = .line := by
  unfold line at h
  split at h
  · cases h
  · rw [List.mem_singleton.1 h]
    rfl

theorem aspect_of_mem_tool (h : e ∈ tool previous s) : e.aspect = .tool := by
  unfold tool at h
  split at h
  · cases h
  · rw [List.mem_singleton.1 h]
    rfl

theorem aspect_of_mem_events {summary : HomingSummary} (h : e ∈ summary.events policy) :
    e.aspect = .homing := by
  unfold HomingSummary.events at h
  rcases List.mem_append.1 h with h | h
  · split at h
    · cases h
    · rw [List.mem_singleton.1 h]
      rfl
  · rw [List.mem_singleton.1 h]
    split <;> rfl

theorem aspect_of_mem_homing (h : e ∈ homing previous s policy) : e.aspect = .homing := by
  unfold homing at h
  split at h
  · cases h
  · exact aspect_of_mem_events h

/-- The segments after that on the interpreter. -/
def rest (previous : Option Snapshot) (s : Snapshot) (policy : HomingPolicy) :
    List StatusEvent :=
  file previous s ++ line previous s ++ tool previous s ++ homing previous s policy

theorem changes_eq (previous : Option Snapshot) (s : Snapshot) (policy : HomingPolicy) :
    changes previous s policy = bootstrap previous s ++ runState previous s ++ mode previous s ++
      interp previous s ++ rest previous s policy := by
  simp only [changes, rest, List.append_assoc]

theorem aspect_of_mem_rest (h : e ∈ rest previous s policy) :
    e.aspect = .file ∨ e.aspect = .line ∨ e.aspect = .tool ∨ e.aspect = .homing := by
  simp only [rest, List.mem_append] at h
  rcases h with ((h | h) | h) | h
  · exact .inl (aspect_of_mem_file h)
  · exact .inr (.inl (aspect_of_mem_line h))
  · exact .inr (.inr (.inl (aspect_of_mem_tool h)))
  · exact .inr (.inr (.inr (aspect_of_mem_homing h)))

theorem aspect_of_mem_bootstrap (h : e ∈ bootstrap previous s) :
    e.aspect = .runState ∨ e.aspect = .interp := by
  unfold bootstrap at h
  split at h
  · simp only [List.mem_cons, List.not_mem_nil, or_false] at h
    rcases h with rfl | rfl | rfl
    · split <;> exact .inl rfl
    · exact .inl rfl
    · exact .inr rfl
  · cases h

theorem aspect_ne_display (h : e ∈ changes previous s policy) : e.aspect ≠ .display := by
  intro hd
  simp only [changes_eq, List.mem_append] at h
  rcases h with (((h | h) | h) | h) | h
  · rcases aspect_of_mem_bootstrap h with h | h <;> rw [h] at hd <;> cases hd
  · rw [aspect_of_mem_runState h] at hd
    cases hd
  · rw [aspect_of_mem_mode h] at hd
    cases hd
  · rw [aspect_of_mem_interp h] at hd
    cases hd
  · rcases aspect_of_mem_rest h with h | h | h | h <;> rw [h] at hd <;> cases hd

end Changes

end MachinePanel
