/-
The order in which the events of all updates come, whatever the machine does
between the polls. `run_eventOrder` puts together what holds of every run:
how the first update opens, what can follow an event on the run state, what
powering on brings with it, and when the interpreter can be reported at work.

Two facts carry over from one update to the next. The last event on the run
state reports the run state of the snapshot kept (`isChain_linked`), and the
interpreter has been reported to run, and not idle since, exactly if it is not
idle in the snapshot kept (`licensed_linked`).
-/
import Mathlib.Data.List.Chain
import MachinePanel.Proofs.Updates

namespace MachinePanel

namespace StatusEvent

/-- The event reports the interpreter at work. -/
def isAtWork : StatusEvent → Bool
  | interpReading | interpPaused | interpWaiting => true
  | _ => false

end StatusEvent

open StatusEvent (ofRunState ofMode ofInterpState)

/-- The order that the events of updates keep. -/
structure EventOrder (updates : List Update) : Prop where
  /-- The first update opens with three events of its own. -/
  opening : ∀ first rest, updates = first :: rest →
    [if .estop < first.snapshot.runState then .estopReset else .estop, .off, .interpIdle] <+:
      first.events
  /-- No later update contains the three. -/
  no_opening : ∀ first rest, updates = first :: rest → ∀ u ∈ rest, ∀ e,
    e = .estop ∨ e = .estopReset → ¬ [e, .off, .interpIdle] <:+: u.events
  /-- After `on`, the next event on the run state is `off`. -/
  off_after_on : ∀ before e after,
    (updates.flatMap (·.events)).filter (·.isRunState) = before ++ .on :: e :: after → e = .off
  /-- After the first update, no event on the run state repeats the one before it. -/
  no_repeat : ∀ first rest, updates = first :: rest → ∀ before e e' after,
    (updates.flatMap (·.events)).filter (·.isRunState) = before ++ e :: e' :: after →
    (first.events.filter (·.isRunState)).length ≤ before.length + 1 → e ≠ e'
  /-- Powering on brings the mode and the state of the interpreter with it. -/
  power_on : ∀ u ∈ updates, ∀ before after, u.events = before ++ .on :: after →
    [ofMode u.snapshot.mode, .interpRun, ofInterpState u.snapshot.interpState] <+: after
  /-- When the interpreter is reported to run, its state follows at once. -/
  state_after_run : ∀ u ∈ updates, ∀ before after, u.events = before ++ .interpRun :: after →
    [ofInterpState u.snapshot.interpState] <+: after
  /-- The interpreter is at work only if it was reported to run, and not idle since. -/
  run_before_work : ∀ before e after, updates.flatMap (·.events) = before ++ e :: after →
    e.isAtWork = true → ∃ l₁ l₂, before = l₁ ++ .interpRun :: l₂ ∧ .interpIdle ∉ l₂

theorem Linked.exists_changes {cached : Option Snapshot} {updates : List Update}
    (h : Linked cached updates) {u : Update} (hu : u ∈ updates) :
    ∃ previous, u.events = changes previous u.snapshot u.policy ∧
      (cached.isSome = true → previous.isSome = true) := by
  induction updates generalizing cached with
  | nil => cases hu
  | cons v rest ih =>
    rcases List.mem_cons.1 hu with rfl | hu
    · exact ⟨cached, h.1, id⟩
    · obtain ⟨previous, hp, hsome⟩ := ih h.2 hu
      exact ⟨previous, hp, fun _ => hsome rfl⟩

/-! ## Run states -/

namespace Changes

variable {previous : Option Snapshot} {old s : Snapshot} {policy : HomingPolicy}

theorem filter_isRunState_eq_self {l : List StatusEvent} (h : ∀ e ∈ l, e.aspect = .runState) :
    l.filter (·.isRunState) = l :=
  List.filter_eq_self.2 fun e he => (StatusEvent.isRunState_iff e).2 (h e he)

theorem filter_isRunState_eq_nil {l : List StatusEvent} (h : ∀ e ∈ l, e.aspect ≠ .runState) :
    l.filter (·.isRunState) = [] :=
  List.filter_eq_nil_iff.2 fun e he hr => h e he ((StatusEvent.isRunState_iff e).1 hr)

theorem aspect_rest_ne (a : Aspect) (ha : a = .runState ∨ a = .interp ∨ a = .mode) :
    ∀ e ∈ rest previous s policy, e.aspect ≠ a := by
  intro e he h
  rcases aspect_of_mem_rest he with h' | h' | h' | h' <;> rw [h'] at h <;> subst h <;>
    rcases ha with ha | ha | ha <;> cases ha

theorem filter_isRunState_changes (previous : Option Snapshot) (s : Snapshot)
    (policy : HomingPolicy) :
    (changes previous s policy).filter (·.isRunState) =
      (bootstrap previous s).filter (·.isRunState) ++ runState previous s := by
  have hmode : (mode previous s).filter (·.isRunState) = [] :=
    filter_isRunState_eq_nil fun e he h => by rw [aspect_of_mem_mode he] at h; cases h
  have hinterp : (interp previous s).filter (·.isRunState) = [] :=
    filter_isRunState_eq_nil fun e he h => by rw [aspect_of_mem_interp he] at h; cases h
  have hrest : (rest previous s policy).filter (·.isRunState) = [] :=
    filter_isRunState_eq_nil (aspect_rest_ne _ (.inl rfl))
  simp only [changes_eq, List.filter_append, hmode, hinterp, hrest, List.append_nil,
    filter_isRunState_eq_self fun e he => aspect_of_mem_runState he]

/-- The events on the run state from one run state to another. -/
def steps (r r' : RunState) : List StatusEvent :=
  if r = r' then []
  else if r = .on ∧ r' ≠ .off then [.off, ofRunState r']
  else [ofRunState r']

theorem runState_some (old s : Snapshot) :
    runState (some old) s = steps old.runState s.runState := by
  obtain ⟨r, _⟩ := old
  obtain ⟨r', _⟩ := s
  cases r <;> cases r' <;> rfl

theorem runState_none (s : Snapshot) : runState none s = [ofRunState s.runState] := rfl

end Changes

/-- The second event on the run state may follow the first. -/
def Follows (e e' : StatusEvent) : Prop :=
  e ≠ e' ∧ (e = .on → e' = .off)

instance (e e' : StatusEvent) : Decidable (Follows e e') :=
  inferInstanceAs (Decidable (_ ∧ _))

theorem isChain_steps (r r' : RunState) :
    (ofRunState r :: Changes.steps r r').IsChain Follows := by
  cases r <;> cases r' <;> decide

theorem steps_eq_append (r r' : RunState) :
    ∃ l, ofRunState r :: Changes.steps r r' = l ++ [ofRunState r'] := by
  cases r <;> cases r' <;> first | exact ⟨[], rfl⟩ | exact ⟨[_], rfl⟩ | exact ⟨[_, _], rfl⟩

/-- The invariant of the run state: what was reported last is the run state of the snapshot kept. -/
theorem isChain_linked {old : Snapshot} {updates : List Update} (h : Linked (some old) updates) :
    (ofRunState old.runState ::
      (updates.flatMap (·.events)).filter (·.isRunState)).IsChain Follows := by
  induction updates generalizing old with
  | nil => exact List.isChain_singleton _
  | cons u rest ih =>
    have hchain := isChain_steps old.runState u.snapshot.runState
    obtain ⟨l, hl⟩ := steps_eq_append old.runState u.snapshot.runState
    rw [hl] at hchain
    rw [List.flatMap_cons, List.filter_append, h.1, Changes.filter_isRunState_changes,
      Changes.runState_some, Changes.bootstrap, List.filter_nil, List.nil_append,
      ← List.cons_append, hl, List.append_assoc, List.singleton_append, List.isChain_split]
    exact ⟨hchain, ih h.2⟩

/-- The opening cannot come from a change of the run state. -/
theorem not_infix_steps {e : StatusEvent} (he : e = .estop ∨ e = .estopReset) (r r' : RunState) :
    ¬ [e, .off] <:+: Changes.steps r r' := by
  rcases he with rfl | rfl <;> cases r <;> cases r' <;> decide

/-- All events on the run state: the opening, the first run state, and what follows. -/
theorem runStates_cons {first : Update} {rest : List Update} (h : Linked none (first :: rest)) :
    ∃ e tail, (e = .estop ∨ e = .estopReset) ∧
      first.events.filter (·.isRunState) = [e, .off, ofRunState first.snapshot.runState] ∧
      ((first :: rest).flatMap (·.events)).filter (·.isRunState) =
        e :: .off :: ofRunState first.snapshot.runState :: tail ∧
      (ofRunState first.snapshot.runState :: tail).IsChain Follows := by
  have hfirst : first.events.filter (·.isRunState) =
      [if .estop < first.snapshot.runState then .estopReset else .estop, .off,
        ofRunState first.snapshot.runState] := by
    rw [h.1, Changes.filter_isRunState_changes, Changes.runState_none, Changes.bootstrap]
    split <;> rfl
  refine ⟨_, _, ?_, hfirst, ?_, isChain_linked h.2⟩
  · split
    · exact .inr rfl
    · exact .inl rfl
  · rw [List.flatMap_cons, List.filter_append, hfirst]
    rfl

/-! ## Segments that follow an event -/

namespace Changes

variable {previous : Option Snapshot} {s : Snapshot} {policy : HomingPolicy}

theorem on_mem_steps {r r' : RunState} : .on ∈ steps r r' → r ≠ .on ∧ r' = .on := by
  cases r <;> cases r' <;> decide

theorem entersOn_of_mem (h : .on ∈ runState previous s) : entersOn previous s = true := by
  rw [entersOn_iff]
  cases previous with
  | none =>
    rw [runState_none] at h
    have hon : ofRunState .on = ofRunState s.runState := List.mem_singleton.1 h
    exact ⟨nofun, (StatusEvent.ofRunState_injective hon).symm⟩
  | some old =>
    rw [runState_some] at h
    obtain ⟨hne, hon⟩ := on_mem_steps h
    exact ⟨fun heq => hne (Option.some.inj heq), hon⟩

theorem runState_of_entersOn (h : entersOn previous s = true) : runState previous s = [.on] := by
  obtain ⟨hne, hon⟩ := entersOn_iff.1 h
  have hleaves : leavesOn previous s = false := by
    simp [leavesOn, hon, show ¬ RunState.on < RunState.on by decide]
  simp [runState, hon, hne, hleaves, StatusEvent.ofRunState]

theorem on_notMem_bootstrap : .on ∉ bootstrap previous s := by
  unfold bootstrap
  split
  · split <;> decide
  · exact List.not_mem_nil

theorem mode_of_entersOn (h : entersOn previous s = true) : mode previous s = [ofMode s.mode] := by
  simp [mode, modeBaseline, h]

theorem interp_of_entersOn (h : entersOn previous s = true) :
    interp previous s = [.interpRun, ofInterpState s.interpState] := by
  simp [interp, interpBaseline, h]

theorem power_on_changes {before after : List StatusEvent}
    (h : changes previous s policy = before ++ .on :: after) :
    [ofMode s.mode, .interpRun, ofInterpState s.interpState] <+: after := by
  have hmode : .on ∉ mode previous s := fun hm => by cases aspect_of_mem_mode hm
  have hinterp : .on ∉ interp previous s := fun hm => by cases aspect_of_mem_interp hm
  have hrest : .on ∉ rest previous s policy := fun hm =>
    aspect_rest_ne .runState (.inl rfl) _ hm rfl
  have hmem : .on ∈ changes previous s policy := by simp [h]
  have hrun : .on ∈ runState previous s := by
    simpa [changes_eq, on_notMem_bootstrap, hmode, hinterp, hrest] using hmem
  have henters := entersOn_of_mem hrun
  have hsplit : changes previous s policy = bootstrap previous s ++ .on ::
      (mode previous s ++ interp previous s ++ rest previous s policy) := by
    simp [changes_eq, runState_of_entersOn henters]
  have hunique : .on ∉ mode previous s ++ interp previous s ++ rest previous s policy := by
    simp [hmode, hinterp, hrest]
  rw [hsplit] at h
  obtain ⟨-, -, rfl⟩ := (List.append_cons_inj_of_notMem on_notMem_bootstrap hunique).1 h
  rw [mode_of_entersOn henters, interp_of_entersOn henters]
  exact ⟨rest previous s policy, rfl⟩

theorem ofInterpState_ne_run (i : InterpState) : .interpRun ≠ ofInterpState i := by
  cases i <;> decide

theorem interp_of_mem (h : .interpRun ∈ interp previous s) :
    interp previous s = [.interpRun, ofInterpState s.interpState] := by
  unfold interp at h ⊢
  simp only at h ⊢
  split at h
  · cases h
  · next hne =>
    rw [if_neg hne]
    split at h
    · next hidle => rw [if_pos hidle]; rfl
    · exact absurd (List.mem_singleton.1 h) (ofInterpState_ne_run _)

theorem run_notMem_bootstrap : .interpRun ∉ bootstrap previous s := by
  unfold bootstrap
  split
  · split <;> decide
  · exact List.not_mem_nil

theorem state_after_run_changes {before after : List StatusEvent}
    (h : changes previous s policy = before ++ .interpRun :: after) :
    [ofInterpState s.interpState] <+: after := by
  have hrun : .interpRun ∉ runState previous s := fun hm => by cases aspect_of_mem_runState hm
  have hmode : .interpRun ∉ mode previous s := fun hm => by cases aspect_of_mem_mode hm
  have hrest : .interpRun ∉ rest previous s policy := fun hm =>
    aspect_rest_ne .interp (.inr (.inl rfl)) _ hm rfl
  have hmem : .interpRun ∈ changes previous s policy := by simp [h]
  have hinterp : .interpRun ∈ interp previous s := by
    simpa [changes_eq, run_notMem_bootstrap, hmode, hrun, hrest] using hmem
  have hsplit : changes previous s policy =
      (bootstrap previous s ++ runState previous s ++ mode previous s) ++ .interpRun ::
        (ofInterpState s.interpState :: rest previous s policy) := by
    simp [changes_eq, interp_of_mem hinterp]
  have hbefore : .interpRun ∉ bootstrap previous s ++ runState previous s ++ mode previous s := by
    simp [run_notMem_bootstrap, hrun, hmode]
  have hafter : .interpRun ∉ ofInterpState s.interpState :: rest previous s policy := by
    simp [ofInterpState_ne_run, hrest]
  rw [hsplit] at h
  obtain ⟨-, -, rfl⟩ := (List.append_cons_inj_of_notMem hbefore hafter).1 h
  exact ⟨rest previous s policy, rfl⟩

end Changes

/-! ## The interpreter at work -/

/-- Whether the interpreter can be at work, after an event. -/
def mayWork (running : Bool) : StatusEvent → Bool
  | .interpRun => true
  | .interpIdle => false
  | _ => running

/-- The interpreter is reported at work only when it can be. -/
def Licensed (running : Bool) : List StatusEvent → Prop
  | [] => True
  | e :: l => (e.isAtWork = true → running = true) ∧ Licensed (mayWork running e) l

theorem licensed_append {running : Bool} {l₁ l₂ : List StatusEvent} :
    Licensed running (l₁ ++ l₂) ↔
      Licensed running l₁ ∧ Licensed (l₁.foldl mayWork running) l₂ := by
  induction l₁ generalizing running with
  | nil => simp [Licensed]
  | cons e l ih => simp [Licensed, ih, and_assoc]

theorem licensed_of_aspect {l : List StatusEvent} (h : ∀ e ∈ l, e.aspect ≠ .interp)
    (running : Bool) : Licensed running l ∧ l.foldl mayWork running = running := by
  induction l with
  | nil => exact ⟨trivial, rfl⟩
  | cons e l ih =>
    have hl := ih fun e' he => h e' (by simp [he])
    have he : (e.isAtWork = true → running = true) ∧ mayWork running e = running := by
      have hne := h e (by simp)
      cases e <;> first | exact absurd rfl hne | exact ⟨nofun, rfl⟩
    rw [Licensed, List.foldl_cons, he.2]
    exact ⟨⟨he.1, hl.1⟩, hl.2⟩

theorem mayWork_of_foldl {l : List StatusEvent} (h : l.foldl mayWork false = true) :
    ∃ l₁ l₂, l = l₁ ++ .interpRun :: l₂ ∧ .interpIdle ∉ l₂ := by
  induction l using List.reverseRecOn with
  | nil => cases h
  | append_singleton l e ih =>
    rw [List.foldl_append, List.foldl_cons, List.foldl_nil] at h
    by_cases hrun : e = .interpRun
    · exact ⟨l, [], by rw [hrun], List.not_mem_nil⟩
    · have hidle : e ≠ .interpIdle := by
        rintro rfl
        cases h
      have hl : l.foldl mayWork false = true := by
        cases e <;> first | exact h | exact absurd rfl hrun | exact absurd rfl hidle
      obtain ⟨l₁, l₂, rfl, hnot⟩ := ih hl
      refine ⟨l₁, l₂ ++ [e], by simp, ?_⟩
      simp [hnot, hidle.symm]

theorem Licensed.exists_run {l before after : List StatusEvent} {e : StatusEvent}
    (h : Licensed false l) (hl : l = before ++ e :: after) (he : e.isAtWork = true) :
    ∃ l₁ l₂, before = l₁ ++ .interpRun :: l₂ ∧ .interpIdle ∉ l₂ := by
  rw [hl, licensed_append] at h
  exact mayWork_of_foldl (h.2.1 he)

namespace Changes

variable {previous : Option Snapshot} {s : Snapshot} {policy : HomingPolicy} {running : Bool}

/-- The interpreter can be at work exactly if it is not idle in the snapshot. -/
def Agrees (previous : Option Snapshot) (running : Bool) : Prop :=
  ∀ old, previous = some old → running = decide (old.interpState ≠ .idle)

theorem licensed_ofInterpState (i : InterpState) :
    Licensed true [ofInterpState i] ∧
      [ofInterpState i].foldl mayWork true = decide (i ≠ .idle) := by
  cases i <;> simp [Licensed, ofInterpState, StatusEvent.isAtWork, mayWork]

theorem licensed_interp (s : Snapshot) (h : Agrees previous running) :
    Licensed running (interp previous s) ∧
      (interp previous s).foldl mayWork running = decide (s.interpState ≠ .idle) := by
  have hstate := licensed_ofInterpState s.interpState
  unfold interp
  simp only
  split
  · next heq =>
    unfold interpBaseline at heq
    split at heq
    · cases heq
    · obtain ⟨old, rfl, hold⟩ := Option.map_eq_some_iff.1 heq
      refine ⟨trivial, ?_⟩
      rw [List.foldl_nil, h old rfl, hold]
  · split
    · exact ⟨⟨nofun, hstate.1⟩, hstate.2⟩
    · next hbase =>
      -- The baseline is known and not idle, so the interpreter has been reported to run.
      have hrunning : running = true := by
        simp only [interpBaseline, not_or] at hbase
        split at hbase
        · exact absurd rfl hbase.1
        · cases previous with
          | none => exact absurd rfl hbase.1
          | some old => simpa [h old rfl] using hbase.2
      rw [hrunning]
      exact hstate

theorem licensed_bootstrap (s : Snapshot) (h : Agrees previous running) :
    ∃ b, Licensed running (bootstrap previous s) ∧
      (bootstrap previous s).foldl mayWork running = b ∧ Agrees previous b := by
  cases previous with
  | none =>
    refine ⟨false, ?_, ?_, nofun⟩
    · unfold bootstrap
      simp only
      split <;> exact ⟨nofun, nofun, nofun, trivial⟩
    · unfold bootstrap
      simp only
      split <;> rfl
  | some old => exact ⟨running, trivial, rfl, h⟩

theorem licensed_changes (s : Snapshot) (policy : HomingPolicy) (h : Agrees previous running) :
    Licensed running (changes previous s policy) ∧
      Agrees (some s) ((changes previous s policy).foldl mayWork running) := by
  obtain ⟨b, hopen, hb, hagrees⟩ := licensed_bootstrap s h
  have hrun := licensed_of_aspect (l := runState previous s)
    (fun e he hi => by rw [aspect_of_mem_runState he] at hi; cases hi) b
  have hmode := licensed_of_aspect (l := mode previous s)
    (fun e he hi => by rw [aspect_of_mem_mode he] at hi; cases hi) b
  have hinterp := licensed_interp s hagrees
  have hrest := licensed_of_aspect (l := rest previous s policy)
    (aspect_rest_ne .interp (.inr (.inl rfl))) (decide (s.interpState ≠ .idle))
  simp only [changes_eq, licensed_append, List.foldl_append, hb, hrun.2, hmode.2, hinterp.2,
    hrest.2]
  refine ⟨⟨⟨⟨⟨hopen, hrun.1⟩, hmode.1⟩, hinterp.1⟩, hrest.1⟩, ?_⟩
  rintro _ ⟨⟩
  rfl

end Changes

/-- The invariant of the interpreter: it can be at work exactly if the snapshot kept has it so. -/
theorem licensed_linked {cached : Option Snapshot} {updates : List Update} {running : Bool}
    (h : Linked cached updates) (hrunning : Changes.Agrees cached running) :
    Licensed running (updates.flatMap (·.events)) := by
  induction updates generalizing cached running with
  | nil => trivial
  | cons u rest ih =>
    rw [List.flatMap_cons, licensed_append, h.1]
    have hu := Changes.licensed_changes u.snapshot u.policy hrunning
    exact ⟨hu.1, ih h.2 hu.2⟩

/-! ## All together -/

/-- Updates that are linked keep the order. -/
theorem Linked.eventOrder {updates : List Update} (h : Linked none updates) :
    EventOrder updates where
  opening := by
    rintro first rest rfl
    rw [h.1, Changes.changes_eq, Changes.bootstrap, List.append_assoc, List.append_assoc,
      List.append_assoc]
    exact ⟨_, rfl⟩
  no_opening := by
    rintro first rest rfl u hu e he hinfix
    obtain ⟨previous, hp, hsome⟩ := Linked.exists_changes h.2 hu
    obtain ⟨old, rfl⟩ := Option.isSome_iff_exists.1 (hsome rfl)
    have hruns := hinfix.filter (·.isRunState)
    rw [hp, Changes.filter_isRunState_changes, Changes.runState_some] at hruns
    refine not_infix_steps he old.runState u.snapshot.runState ?_
    rcases he with rfl | rfl <;> exact hruns
  off_after_on := by
    intro before e after hl
    cases updates with
    | nil => simp at hl
    | cons first rest =>
      obtain ⟨opened, tail, hopened, -, hruns, hchain⟩ := runStates_cons h
      have hall : (opened :: .off :: ofRunState first.snapshot.runState :: tail).IsChain
          fun e e' => e = .on → e' = .off := by
        refine .cons_cons ?_ (.cons_cons nofun (hchain.imp fun _ _ hf => hf.2))
        rintro rfl
        rcases hopened with ho | ho <;> cases ho
      rw [hruns] at hl
      exact List.isChain_iff_forall_rel_of_append_cons_cons.1 hall hl rfl
  no_repeat := by
    rintro first rest rfl before e e' after hl hlen
    obtain ⟨opened, tail, -, hfirst, hruns, hchain⟩ := runStates_cons h
    rw [hruns] at hl
    rw [hfirst] at hlen
    -- The first two events on the run state are those of the opening.
    match before, hlen with
    | a :: b :: before, _ =>
      simp only [List.cons_append, List.cons.injEq] at hl
      exact (List.isChain_iff_forall_rel_of_append_cons_cons.1 hchain hl.2.2).1
  power_on := by
    intro u hu before after he
    obtain ⟨previous, hp, -⟩ := h.exists_changes hu
    rw [hp] at he
    exact Changes.power_on_changes he
  state_after_run := by
    intro u hu before after he
    obtain ⟨previous, hp, -⟩ := h.exists_changes hu
    rw [hp] at he
    exact Changes.state_after_run_changes he
  run_before_work := by
    intro before e after hl he
    exact (licensed_linked h nofun).exists_run hl he

open Panel

/-- **The events of all updates keep their order**, in every run from a new panel
in which no listener makes an update. -/
theorem run_eventOrder {L μ : Type} {conduct : Conduct L μ} (h : AvoidsUpdates conduct)
    (depth : Nat) (setup : Setup) (memory : μ) (steps : List (Step L μ)) :
    let p := (Panel.new setup memory).run (conduct.react depth) steps
    updateEvents p.past = (updatesIn 0 p.past).flatMap (·.events) ∧
      EventOrder (updatesIn 0 p.past) := by
  intro p
  obtain ⟨hlinked, hevents, -⟩ := run_reports h depth setup memory steps
  exact ⟨hevents, hlinked.eventOrder⟩

theorem run_eventOrder_briefScript :
    let p : Panel Unit Unit := (Panel.new { script := some briefScript } ()).run (meddling.react 2)
      [.operation (.subscribe .status .any ()), .operation .updateStatus,
        .operation .updateStatus, .operation .updateStatus]
    AvoidsUpdates (meddling (L := Unit) (μ := Unit)) ∧
      (updatesIn 0 p.past).map (·.events.filter (·.isRunState)) =
        [[.estopReset, .off, .on], [.off, .estop]] ∧
      updateEvents p.past = (updatesIn 0 p.past).flatMap (·.events) ∧
      EventOrder (updatesIn 0 p.past) := by
  refine ⟨meddling_avoidsUpdates, ?_, run_eventOrder meddling_avoidsUpdates 2 _ _ _⟩
  decide +kernel

end MachinePanel
