/-
The watcher of pins and its own clock, one step at a time. Two things say
whether passes are to be made, the watcher's flag and its clock. Enabling,
disabling and setting the flag change them in different ways, and each is taken
down in a log (`PinWatcher.switched`). What happens when the alarm of the clock
goes off depends on both (`fire_of_stopped`, `fire_of_cleared`,
`fire_of_enabled`).

Nothing else turns to them, so a relation that holds along these operations holds
along all others and along what listeners do (`Unswitched`).
-/
import MachinePanel.Proofs.Aside

namespace MachinePanel

namespace Clock

variable {κ : Type} {c c' c'' : Clock κ} {a : Alarm κ}

/-- The clock when its alarm has delivered a tick. -/
def ticked (c : Clock κ) : Clock κ :=
  { c with ticks := c.ticks + 1, alarm := none }

/-- The clock when its alarm has ended without a tick. -/
def expired (c : Clock κ) : Clock κ :=
  { c with alarm := none }

theorem goOff_of_running (ha : a.number = c.generation) (hr : c.running = true) :
    c.goOff a = (true, c.ticked) :=
  (if_pos ha).trans (if_pos hr)

theorem goOff_of_stopped (ha : a.number = c.generation) (hr : c.running = false) :
    c.goOff a = (false, c.expired) :=
  (if_pos ha).trans (if_neg (Bool.eq_false_iff.1 hr))

/-- A callback that wants another call leaves the clock running or stopped, as it is. -/
theorem running_settle (c : Clock κ) (a : Alarm κ) : (c.settle a true).running = c.running := by
  unfold settle
  split <;> rfl

/-- The newest alarm is set. -/
def Armed (c : Clock κ) : Prop :=
  ∃ a, c.alarm = some a ∧ a.number = c.generation

/-- The alarm is the same as before and the clock has not been started, or a newer alarm is set. -/
def Renewed (c c' : Clock κ) : Prop :=
  c'.generation = c.generation ∧ c'.alarm = c.alarm ∧ (c'.running = true → c.running = true) ∨
    c.generation < c'.generation ∧ c'.Armed

theorem Renewed.refl (c : Clock κ) : c.Renewed c := .inl ⟨rfl, rfl, id⟩

theorem Renewed.trans (h : c.Renewed c') (h' : c'.Renewed c'') : c.Renewed c'' := by
  unfold Renewed at h h' ⊢
  rcases h' with ⟨hnumber', halarm', hrunning'⟩ | ⟨hlt', harmed'⟩
  · rcases h with ⟨hnumber, halarm, hrunning⟩ | ⟨hlt, a, ha, hnewest⟩
    · exact .inl ⟨hnumber'.trans hnumber, halarm'.trans halarm, fun hr => hrunning (hrunning' hr)⟩
    · exact .inr ⟨by omega, a, halarm'.trans ha, hnewest.trans hnumber'.symm⟩
  · have hle : c.generation ≤ c'.generation := by omega
    exact .inr ⟨by omega, harmed'⟩

theorem renewed_start (c : Clock κ) (now : Nanos) (callback : κ) :
    c.Renewed (c.start now callback).2 := by
  by_cases hr : c.running = true
  · rw [start_of_running hr]
    exact .refl c
  · rw [start_of_stopped (Bool.eq_false_iff.2 hr)]
    exact .inr ⟨Nat.lt_succ_self _, _, rfl, rfl⟩

/-- An alarm whose callback wants another call is set again unless a newer one is. -/
theorem Renewed.armed_settle (h : c.Renewed c') (ha : a.number = c.generation) :
    (c'.settle a true).Armed := by
  unfold settle
  by_cases hnumber : a.number = c'.generation
  · rw [if_pos hnumber]
    exact ⟨a, rfl, hnumber⟩
  · rw [if_neg hnumber]
    rcases h with ⟨hsame, -, -⟩ | ⟨-, harmed⟩
    · exact absurd (ha.trans hsame.symm) hnumber
    · exact harmed

end Clock

variable {L μ : Type}

/-! ## Switchings -/

namespace Switching

/-- The clock was started. -/
def starts : Switching → Bool
  | enabled (.ok started) => started
  | _ => false

/-- The flag was set, be it with the clock or alone. -/
def sets : Switching → Bool
  | enabled (.ok _) => true
  | flagged on => on
  | _ => false

/-- The flag after a switching. -/
def flagAfter (flag : Bool) : Switching → Bool
  | enabled (.ok _) => true
  | enabled (.error _) => flag
  | disabled => false
  | flagged on => on

/-- The clock after a switching. -/
def clockAfter (now : Nanos) (c : Clock Unit) : Switching → Clock Unit
  | enabled (.ok _) => (c.start now ()).2
  | disabled => { c with running := false }
  | enabled (.error _) | flagged _ => c

/-- Enabling says whether it started the clock, which it does if the clock is stopped. -/
def Truthful (running : Bool) (s : Switching) : Prop :=
  ∀ started, s = .enabled (.ok started) → started = !running

theorem renewed_clockAfter (now : Nanos) (c : Clock Unit) (s : Switching) :
    c.Renewed (s.clockAfter now c) := by
  cases s with
  | enabled result =>
    cases result with
    | ok started => exact c.renewed_start now ()
    | error e => exact .refl c
  | disabled => exact .inl ⟨rfl, rfl, nofun⟩
  | flagged on => exact .refl c

/-- No switching makes a tick. -/
theorem ticks_clockAfter (now : Nanos) (c : Clock Unit) (s : Switching) :
    (s.clockAfter now c).ticks = c.ticks := by
  cases s with
  | enabled result =>
    cases result with
    | ok started =>
      simp only [clockAfter, Clock.start]
      split <;> rfl
    | error e => rfl
  | disabled | flagged on => rfl

end Switching

/-- The watcher after a switching. The list and what it remembers are left alone. -/
def PinWatcher.switched (w : PinWatcher L) (now : Nanos) (s : Switching) : PinWatcher L :=
  { w with
    enabled := s.flagAfter w.enabled
    clock := s.clockAfter now w.clock
    switches := w.switches ++ [⟨s, w.clock.ticks⟩] }

namespace Operation

/-- The operation turns to the flag of the pin watcher or to its clock. -/
def switches : Operation L μ → Bool
  | enablePins _ | disablePins | setPinsEnabled _ => true
  | _ => false

end Operation

/-- Listeners do none of these operations. -/
def Conduct.Avoids (conduct : Conduct L μ) (kind : Operation L μ → Bool) : Prop :=
  ∀ l n p, (conduct l n p).All (fun _ op => kind op = false) p

namespace Panel

variable {p q : Panel L μ} {react : Reaction L μ} {conduct : Conduct L μ}
  {R : Panel L μ → Panel L μ → Prop}

/-! ## Switching the watcher -/

theorem pins_setPinsEnabled (p : Panel L μ) (enabled : Bool) :
    (p.setPinsEnabled enabled).pins = p.pins.switched p.now (.flagged enabled) := by
  unfold setPinsEnabled
  simp only
  split <;> rfl

theorem pins_disablePins (p : Panel L μ) :
    p.disablePins.pins = p.pins.switched p.now .disabled := by
  unfold disablePins stopClock
  simp only
  split <;> rfl

/-- Enabling says whether the clock was started, and sets the flag in any case. -/
theorem enablePins_driven (p : Panel L μ) :
    (p.enablePins true).1 = .ok (!p.pins.clock.running) ∧
      (p.enablePins true).2.pins =
        p.pins.switched p.now (.enabled (.ok (!p.pins.clock.running))) := by
  have hclock : (p.markEnabled true).clock .pins = p.pins.clock := rfl
  have hnow : (p.markEnabled true).now = p.now := rfl
  unfold enablePins startClock
  simp only [Bool.not_true, Bool.false_eq_true, if_false, hclock, hnow]
  by_cases hr : p.pins.clock.running = true
  · have hstart := Clock.start_of_running hr p.now ()
    simp only [PinWatcher.switched, Switching.clockAfter, hstart, hr]
    exact ⟨rfl, rfl⟩
  · have hstopped := Bool.eq_false_iff.2 hr
    have hstart := Clock.start_of_stopped hstopped p.now ()
    simp only [PinWatcher.switched, Switching.clockAfter, hstart, hstopped]
    exact ⟨rfl, rfl⟩

/-- Enabling without anything that drives clocks fails, and leaves flag and clock as they were. -/
theorem enablePins_undriven (p : Panel L μ) :
    (p.enablePins false).1 = .error .noRuntime ∧
      (p.enablePins false).2.pins = p.pins.switched p.now (.enabled (.error .noRuntime)) := by
  have hflag : (p.enablePins false).2.pins.enabled = p.pins.enabled := by
    unfold enablePins startClock
    simp only [Bool.not_false, if_true]
    by_cases he : p.pins.enabled = true
    · rw [if_pos he, he]
      rfl
    · rw [if_neg he, Bool.eq_false_iff.2 he]
      rfl
  refine ⟨rfl, ?_⟩
  simp only [PinWatcher.switched, Switching.flagAfter, Switching.clockAfter, ← hflag]
  unfold enablePins startClock
  simp only [Bool.not_false, if_true]
  split <;> rfl

/-- What an operation that turns to the flag or to the clock does to the watcher. -/
theorem pins_perform (react : Reaction L μ) {op : Operation L μ} (hop : op.switches = true)
    (p : Panel L μ) :
    ∃ s, s.Truthful p.pins.clock.running ∧
      (op.perform react p).pins = p.pins.switched p.now s := by
  cases op with
  | enablePins driven =>
    cases driven with
    | true =>
      refine ⟨_, fun started hs => ?_, p.enablePins_driven.2⟩
      cases hs
      rfl
    | false => exact ⟨.enabled (.error .noRuntime), fun _ => nofun, p.enablePins_undriven.2⟩
  | disablePins => exact ⟨.disabled, fun _ => nofun, p.pins_disablePins⟩
  | setPinsEnabled enabled =>
    exact ⟨.flagged enabled, fun _ => nofun, p.pins_setPinsEnabled enabled⟩
  | _ => cases hop

/-! ## What does not switch it -/

/-- The relation holds as long as nobody turns to the flag of the pin watcher or to its clock. -/
structure Unswitched (R : Panel L μ → Panel L μ → Prop) : Prop where
  trans : ∀ {p q r}, R p q → R q r → R p r
  same : ∀ {p q}, q.pins.enabled = p.pins.enabled → q.pins.clock = p.pins.clock →
    q.pins.switches = p.pins.switches → R p q

namespace Unswitched

theorem strand (h : Unswitched R) : Strand R :=
  ⟨fun _ => h.same rfl rfl rfl, h.trans, fun _ _ _ => h.same rfl rfl rfl⟩

theorem sideways (h : Unswitched R) (hreact : ∀ l n p, R p (react l n p).2) :
    Sideways react R where
  trans := h.trans
  aside haside := h.same haside.enabled haside.clock haside.switches
  reaction := hreact

theorem perform (h : Unswitched R) (hreact : ∀ l n p, R p (react l n p).2) (op : Operation L μ)
    (p : Panel L μ) (hswitch : op.switches = true → R p (op.perform react p)) :
    R p (op.perform react p) := by
  refine (h.sideways hreact).perform op p fun hapart => ?_
  cases op with
  | drivePin name value =>
    rw [Operation.perform]
    cases p.store.drive name value <;> exact h.same rfl rfl rfl
  | removePin name => exact h.same rfl rfl rfl
  | enablePins | disablePins | setPinsEnabled => exact hswitch rfl
  | _ => cases hapart

/-- A relation that holds along the switches listeners make holds along what they do. -/
theorem reaction (h : Unswitched R) {kind : Operation L μ → Bool}
    (hconduct : conduct.Avoids kind)
    (hswitch : ∀ (react : Reaction L μ) op p, kind op = false → op.switches = true →
      R p (op.perform react p))
    (depth : Nat) (l : L) (n : Notice) (p : Panel L μ) : R p (conduct.react depth l n p).2 :=
  h.strand.reaction hconduct
    (fun hreact op p hop => h.perform hreact op p (hswitch _ op p hop)) depth l n p

/-- A relation that holds along all switches holds along what listeners do. -/
theorem reaction_of_switch (h : Unswitched R)
    (hswitch : ∀ (react : Reaction L μ) (op : Operation L μ) p, op.switches = true →
      R p (op.perform react p))
    (conduct : Conduct L μ) (depth : Nat) (l : L) (n : Notice) (p : Panel L μ) :
    R p (conduct.react depth l n p).2 := by
  have hall : conduct.Avoids fun _ => false := fun _ _ _ => Plan.all_of_forall fun _ _ => rfl
  exact h.reaction hall (fun react op p _ => hswitch react op p) depth l n p

theorem updatePins (h : Unswitched R) (hreact : ∀ l n p, R p (react l n p).2) (p : Panel L μ) :
    R p (p.updatePins react).2 :=
  (h.sideways hreact).chronicle.updatePins p

/-- The alarm of another clock goes off. -/
theorem fire (h : Unswitched R) (hreact : ∀ l n p, R p (react l n p).2) {t : Timekeeper}
    (ht : t ≠ .pins) (p : Panel L μ) : R p (p.fire react t) := by
  have hsideways := h.sideways hreact
  refine hsideways.fire (fun q c => hsideways.aside (aside_setClock q ht c)) (fun q => ?_) p
  cases t with
  | pins => exact absurd rfl ht
  | status => exact hsideways.chronicle.updateStatus q
  | driver => exact hsideways.tick q

end Unswitched

/-! ## One update -/

theorem updatePins_of_enabled (he : p.pins.enabled = true) :
    p.updatePins react = (true, (p.pollPins react).2) :=
  if_pos he

theorem updatePins_of_cleared (he : p.pins.enabled = false) : p.updatePins react = (false, p) :=
  if_neg (Bool.eq_false_iff.1 he)

/-- A pass reads the watched pins, calls listeners, and ends with the number of changes. -/
theorem past_pollPins (hreact : ∀ l n p, Grows [] p (react l n p).2) (p : Panel L μ) :
    ∃ calls, (p.pollPins react).2.past =
      p.past ++ .pass (WatchPass.run p.store p.pins.list).readings ::
        (calls ++ [.passEnd p.past.length (p.pollPins react).1]) := by
  obtain ⟨calls, hcalls⟩ := (grows_emitAll hreact (.pass p.past.length) .pins
    (pinNotices p.readPins.1.changed) p.readPins.2).continues
  refine ⟨calls, ?_⟩
  rw [pollPins_snd, finishPass, past_record, ← hcalls, past_readPins, List.append_assoc,
    List.append_assoc]
  rfl

/-! ## The alarm goes off -/

variable {a : Alarm Unit}

/-- Without an alarm there is nothing to go off. -/
theorem fire_of_none (halarm : p.pins.clock.alarm = none) : p.fire react .pins = p := by
  simp only [fire, clock, halarm]

/-- The alarm of a clock that is stopped ends without a tick. -/
theorem fire_of_stopped (hnewest : ∀ a, p.pins.clock.alarm = some a →
    a.number = p.pins.clock.generation) (hr : p.pins.clock.running = false) :
    p.fire react .pins = p.setClock .pins p.pins.clock.expired := by
  cases halarm : p.pins.clock.alarm with
  | none =>
    rw [fire_of_none halarm, Clock.expired, ← halarm]
    rfl
  | some a =>
    have hoff := Clock.goOff_of_stopped (hnewest a halarm) hr
    simp only [fire, clock, halarm, hoff]
    rfl

/-- A tick that finds the flag cleared makes no pass and stops the clock. -/
theorem fire_of_cleared (halarm : p.pins.clock.alarm = some a)
    (ha : a.number = p.pins.clock.generation) (hr : p.pins.clock.running = true)
    (he : p.pins.enabled = false) :
    p.fire react .pins =
      (p.setClock .pins { p.pins.clock.ticked with running := false }).note
        .clockStoppedByCallback := by
  have hoff := Clock.goOff_of_running ha hr
  have hcalled : (p.setClock .pins p.pins.clock.ticked).updatePins react =
      (false, p.setClock .pins p.pins.clock.ticked) := updatePins_of_cleared he
  have hsettle : p.pins.clock.ticked.settle (a.renew p.pins.clock.period ()) false =
      { p.pins.clock.ticked with running := false } := if_pos ha
  simp only [fire, clock, halarm, hoff, if_true, callTimekeeper, hcalled]
  rw [← hsettle]
  rfl

/-- After a tick that finds the flag set the alarm is set for the next, unless it was replaced. -/
theorem fire_of_enabled (halarm : p.pins.clock.alarm = some a)
    (ha : a.number = p.pins.clock.generation) (hr : p.pins.clock.running = true)
    (he : p.pins.enabled = true) :
    let called := ((p.setClock .pins p.pins.clock.ticked).updatePins react).2
    p.fire react .pins =
      called.setClock .pins
        (called.pins.clock.settle (a.renew p.pins.clock.period ()) true) := by
  intro called
  have hoff := Clock.goOff_of_running ha hr
  have hflag : (p.setClock .pins p.pins.clock.ticked).pins.enabled = true := he
  have hcalled : (p.setClock .pins p.pins.clock.ticked).updatePins react = (true, called) :=
    Prod.ext (by rw [updatePins_of_enabled hflag]) rfl
  simp only [fire, clock, halarm, hoff, if_true, callTimekeeper, hcalled]
  rfl

/-! ## What operations and listeners do to the clock -/

theorem unswitched_renewed :
    Unswitched fun p q : Panel L μ => p.pins.clock.Renewed q.pins.clock where
  trans h h' := h.trans h'
  same _ hclock _ := hclock ▸ .refl _

/-- Whatever listeners do, the alarm of the clock is the same as before or a newer one is set. -/
theorem renewed_reaction (conduct : Conduct L μ) (depth : Nat) (l : L) (n : Notice)
    (p : Panel L μ) : p.pins.clock.Renewed (conduct.react depth l n p).2.pins.clock := by
  refine unswitched_renewed.reaction_of_switch (fun react op p hswitch => ?_) conduct depth l n p
  obtain ⟨s, -, hpins⟩ := pins_perform react hswitch p
  rw [hpins]
  exact s.renewed_clockAfter p.now p.pins.clock

end Panel

end MachinePanel
