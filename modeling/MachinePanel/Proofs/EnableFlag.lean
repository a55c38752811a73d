/-
The flag of the pin watcher in the course of an update. An update goes by the flag as it finds it:
it makes a pass or none, and says which. Listeners of the pass may clear the flag, and what the
update says is then no longer so (`updatePins_reports_call`).

An own clock that makes the update is told to go on, whatever has become of the flag. It stops in
the course of the tick only if a listener stops it. If the flag alone was cleared, there is
another tick, which makes no pass.
-/
import MachinePanel.Proofs.WatchClock

namespace MachinePanel

variable {L μ : Type}

namespace Operation

/-- The operation clears the flag of the pin watcher. -/
def clearsFlag : Operation L μ → Bool
  | disablePins | setPinsEnabled false => true
  | _ => false

/-- The operation starts or stops the clock of the pin watcher. -/
def turnsClock : Operation L μ → Bool
  | enablePins _ | disablePins => true
  | _ => false

end Operation

namespace Panel

variable {p q : Panel L μ} {react : Reaction L μ} {conduct : Conduct L μ}

/-! ## What listeners leave alone -/

/-- Nobody has cleared the flag. -/
theorem unswitched_flag :
    Unswitched fun p q : Panel L μ => p.pins.enabled = true → q.pins.enabled = true where
  trans h h' he := h' (h he)
  same henabled _ _ he := henabled.trans he

theorem flag_reaction (h : conduct.Avoids Operation.clearsFlag) (depth : Nat) (l : L) (n : Notice)
    (p : Panel L μ) (he : p.pins.enabled = true) :
    (conduct.react depth l n p).2.pins.enabled = true := by
  refine unswitched_flag.reaction h (fun react op p hop hswitch he => ?_) depth l n p he
  cases op with
  | enablePins driven =>
    cases driven with
    | true =>
      rw [Operation.perform, p.enablePins_driven.2]
      rfl
    | false =>
      rw [Operation.perform, p.enablePins_undriven.2]
      exact he
  | disablePins => cases hop
  | setPinsEnabled enabled =>
    cases enabled with
    | true =>
      rw [Operation.perform, pins_setPinsEnabled]
      rfl
    | false => cases hop
  | _ => cases hswitch

/-- Nobody has started the clock or stopped it. -/
theorem unswitched_clock :
    Unswitched fun p q : Panel L μ => q.pins.clock = p.pins.clock where
  trans h h' := h'.trans h
  same _ hclock _ := hclock

theorem clock_reaction (h : conduct.Avoids Operation.turnsClock) (depth : Nat) (l : L)
    (n : Notice) (p : Panel L μ) : (conduct.react depth l n p).2.pins.clock = p.pins.clock := by
  refine unswitched_clock.reaction h (fun react op p hop hswitch => ?_) depth l n p
  cases op with
  | enablePins | disablePins => cases hop
  | setPinsEnabled enabled =>
    rw [Operation.perform, pins_setPinsEnabled]
    rfl
  | _ => cases hswitch

/-! ## One update -/

/-- What an update says is the flag as it was called. -/
theorem updatePins_fst (react : Reaction L μ) (p : Panel L μ) :
    (p.updatePins react).1 = p.pins.enabled := by
  cases he : p.pins.enabled with
  | true => rw [updatePins_of_enabled he]
  | false => rw [updatePins_of_cleared he]

/-- If nobody clears the flag, it is still what the update says. -/
theorem enabled_updatePins (h : conduct.Avoids Operation.clearsFlag) (depth : Nat)
    (p : Panel L μ) : (p.updatePins (conduct.react depth)).2.pins.enabled = p.pins.enabled := by
  cases he : p.pins.enabled with
  | true => exact unswitched_flag.updatePins (flag_reaction h depth) p he
  | false =>
    rw [updatePins_of_cleared he]
    exact he

/-! ## Ticks of the own clock -/

variable {a : Alarm Unit}

/-- After a tick with the flag set the newest alarm is set, be it the same as before or another. -/
theorem armed_fire (conduct : Conduct L μ) (depth : Nat) (halarm : p.pins.clock.alarm = some a)
    (ha : a.number = p.pins.clock.generation) (hr : p.pins.clock.running = true)
    (he : p.pins.enabled = true) : (p.fire (conduct.react depth) .pins).pins.clock.Armed := by
  have hrenewed := unswitched_renewed.updatePins (renewed_reaction conduct depth)
    (p.setClock .pins p.pins.clock.ticked)
  rw [fire_of_enabled halarm ha hr he]
  exact hrenewed.armed_settle ha

/-- A tick with the flag cleared makes no pass and stops the clock; if the clock has been
stopped, there is none. -/
theorem silent_fire (harmed : p.pins.clock.Armed) (he : p.pins.enabled = false) :
    (p.fire react .pins).past = p.past ∧ (p.fire react .pins).pins.clock.running = false ∧
      (p.fire react .pins).pins.clock.ticks =
        p.pins.clock.ticks + if p.pins.clock.running then 1 else 0 := by
  obtain ⟨a, halarm, ha⟩ := harmed
  cases hr : p.pins.clock.running with
  | false =>
    have hnewest : ∀ a, p.pins.clock.alarm = some a → a.number = p.pins.clock.generation := by
      intro b hb
      rw [Option.some.inj (hb.symm.trans halarm)]
      exact ha
    rw [fire_of_stopped hnewest hr]
    exact ⟨rfl, hr, rfl⟩
  | true =>
    rw [fire_of_cleared halarm ha hr he]
    exact ⟨rfl, rfl, rfl⟩

/-- **An update says whether it was called with the flag set**, and makes a pass if so. It need
not say what has become of the flag: the two agree unless the flag was set in the beginning and is
cleared in the end, as it can be by listeners alone.

So the own clock goes on after a tick unless a listener stops it. Once the flag is cleared, there
is one more tick at most, which makes no pass. -/
theorem updatePins_reports_call (conduct : Conduct L μ) (depth : Nat) (p : Panel L μ) :
    let react := conduct.react depth
    let again := (p.updatePins react).1
    let q := (p.updatePins react).2
    again = p.pins.enabled ∧
    (again = false → q = p) ∧
    (again = true → ∃ calls changed, q.past =
      p.past ++ .pass (WatchPass.run p.store p.pins.list).readings ::
        (calls ++ [.passEnd p.past.length changed])) ∧
    (again = q.pins.enabled ↔ ¬ (p.pins.enabled = true ∧ q.pins.enabled = false)) ∧
    (conduct.Avoids Operation.clearsFlag → again = q.pins.enabled) ∧
    ∀ a, p.pins.clock.alarm = some a → a.number = p.pins.clock.generation →
      p.pins.clock.running = true → p.pins.enabled = true →
        let called := ((p.setClock .pins p.pins.clock.ticked).updatePins react).2
        let ticked := p.fire react .pins
        ticked.pins.enabled = called.pins.enabled ∧
        ticked.pins.clock.running = called.pins.clock.running ∧
        (conduct.Avoids Operation.turnsClock → ticked.pins.clock.running = true) ∧
        (ticked.pins.enabled = false → ∀ now,
          let next := { ticked with now }.fire react .pins
          next.past = ticked.past ∧ next.pins.clock.running = false ∧
            next.pins.clock.ticks =
              ticked.pins.clock.ticks + if ticked.pins.clock.running then 1 else 0) := by
  intro react again q
  have hagain : again = p.pins.enabled := updatePins_fst react p
  have hcleared : p.pins.enabled = false → q = p := fun he =>
    congrArg Prod.snd (updatePins_of_cleared he)
  refine ⟨hagain, fun hfalse => hcleared (hagain.symm.trans hfalse), fun htrue => ?_, ?_,
    fun havoids => hagain.trans (enabled_updatePins havoids depth p).symm,
    fun a halarm ha hr he => ?_⟩
  · have hq : q = (p.pollPins react).2 :=
      congrArg Prod.snd (updatePins_of_enabled (hagain.symm.trans htrue))
    obtain ⟨calls, hcalls⟩ := past_pollPins (grows_permanent.reaction conduct depth) p
    exact ⟨calls, _, hq ▸ hcalls⟩
  · rw [hagain]
    cases he : p.pins.enabled with
    | true => cases q.pins.enabled <;> simp
    | false =>
      rw [hcleared he, he]
      simp
  · intro called ticked
    have hpins : ticked.pins = _ := congrArg pins (fire_of_enabled halarm ha hr he)
    have hrunning : ticked.pins.clock.running = called.pins.clock.running := by
      rw [hpins]
      exact Clock.running_settle _ _
    have harmed : ticked.pins.clock.Armed := armed_fire conduct depth halarm ha hr he
    refine ⟨by rw [hpins]; rfl, hrunning, fun havoids => ?_, fun hcleared now =>
      silent_fire (p := { ticked with now }) harmed hcleared⟩
    have hclock : called.pins.clock = p.pins.clock.ticked :=
      unswitched_clock.updatePins (clock_reaction havoids depth) _
    rw [hrunning, hclock]
    exact hr

/-- A listener that clears the flag. -/
def clearing : Conduct Unit Unit := fun _ _ _ =>
  .perform (.setPinsEnabled false) fun _ => .finish .returned

/-- A watcher that is enabled, with a pin to be told of. -/
def enabledPanel : Panel Unit Unit :=
  let p := ((Panel.new {} ()).newPin ⟨"p", .input, .bit⟩).2
  ((p.subscribe .pins .any ()).2.enablePins true).2

theorem updatePins_reports_call_clearing :
    let react := clearing.react 1
    let ticked := enabledPanel.fire react .pins
    let next := { ticked with now := Nanos.ofMillis 200 }.fire react .pins
    (enabledPanel.updatePins react).1 = true ∧ ticked.pins.enabled = false ∧
      ticked.pins.clock.running = true ∧ next.past = ticked.past ∧
      next.pins.clock.running = false := by
  intro react ticked next
  obtain ⟨hagain, -, -, -, -, hticks⟩ := updatePins_reports_call clearing 1 enabledPanel
  obtain ⟨-, -, hgoesOn, hnext⟩ := hticks ⟨1, Nanos.ofMillis 100, ()⟩ rfl rfl rfl rfl
  have havoids : clearing.Avoids Operation.turnsClock := fun _ _ _ => ⟨rfl, fun _ => trivial⟩
  have hcleared : ticked.pins.enabled = false := by decide +kernel
  obtain ⟨hpast, hstopped, -⟩ := hnext hcleared (Nanos.ofMillis 200)
  exact ⟨hagain, hcleared, hgoesOn havoids, hpast, hstopped⟩

/-- It is not so that an update says whether the watcher is still enabled: it does not when a
listener has cleared the flag. -/
theorem updatePins_ne_flag :
    ¬ ∀ (conduct : Conduct Unit Unit) (depth : Nat) (p : Panel Unit Unit),
      let r := p.updatePins (conduct.react depth)
      r.1 = r.2.pins.enabled := by
  intro h
  have hagain : (enabledPanel.updatePins (clearing.react 1)).1 = true := by decide +kernel
  have hflag : (enabledPanel.updatePins (clearing.react 1)).2.pins.enabled = false := by
    decide +kernel
  cases hagain.symm.trans ((h clearing 1 enabledPanel).trans hflag)

end Panel

end MachinePanel
