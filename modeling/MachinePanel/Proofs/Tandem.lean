/-
Two runs in tandem. Whatever is asked of one panel is asked of the other as well;
in the second run other listeners may be at work, and an update of the status may
be made in another way (`runBy`). A relation between the two panels that holds
on along each kind of operation (`Tandem`) holds all along (`Tandem.run`).
-/
import MachinePanel.Proofs.Books

namespace MachinePanel

variable {L μ : Type}

/-! ## Runs with updates of another kind -/

namespace Panel

variable (update : Reaction L μ → Panel L μ → Panel L μ) (react : Reaction L μ)

/-- A tick with such an update. -/
def tickBy (p : Panel L μ) : Panel L μ :=
  let p := if p.driver.hasStatus then update react p else p
  (p.tickPins react).2.updateElements.2

/-- What a clock calls. -/
def callTimekeeperBy (p : Panel L μ) : Timekeeper → Bool × Panel L μ
  | .pins => p.updatePins react
  | .status => (true, update react p)
  | .driver => (true, p.tickBy update react)

/-- The alarm of a clock goes off. -/
def fireBy (p : Panel L μ) (t : Timekeeper) : Panel L μ :=
  match (p.clock t).alarm with
  | none => p
  | some alarm =>
    let (delivers, clock) := (p.clock t).goOff alarm
    let p := p.setClock t clock
    if delivers then
      let (again, p) := p.callTimekeeperBy update react t
      let p := p.setClock t ((p.clock t).settle (alarm.renew clock.period ()) again)
      if again then p else p.note .clockStoppedByCallback
    else p

/-- The alarms that fall due up to a moment go off. -/
def advanceToBy (target : Nanos) : Nat → Panel L μ → Panel L μ
  | 0, p => { p with now := target }
  | fuel + 1, p =>
    match p.nextWake? with
    | none => { p with now := target }
    | some (t, wake) =>
      if wake ≤ target then
        advanceToBy target fuel (fireBy update react { p with now := wake } t)
      else { p with now := target }

end Panel

/-- Carries out an operation. -/
def Operation.performBy (update : Reaction L μ → Panel L μ → Panel L μ) (react : Reaction L μ)
    (op : Operation L μ) (p : Panel L μ) : Panel L μ :=
  match op with
  | updateStatus => update react p
  | tick => p.tickBy update react
  | op => op.perform react p

/-- Carries out a plan. -/
def Plan.carryOutBy (update : Reaction L μ → Panel L μ → Panel L μ) (react : Reaction L μ) :
    Plan L μ → Panel L μ → Completion × Panel L μ
  | finish completion, p => (completion, p)
  | perform op next, p =>
    let p := op.performBy update react p
    (next p).carryOutBy update react p

/-- How listeners react. -/
def Conduct.reactBy (conduct : Conduct L μ) (update : Reaction L μ → Panel L μ → Panel L μ) :
    Nat → Reaction L μ
  | 0 => fun _ _ p => (.returned, p)
  | depth + 1 => fun listener notice p =>
    (conduct listener notice p).carryOutBy update (conduct.reactBy update depth) p

namespace Panel

/-- Takes a step. -/
def stepBy (update : Reaction L μ → Panel L μ → Panel L μ) (react : Reaction L μ) (p : Panel L μ) :
    Step L μ → Panel L μ
  | .operation op => op.performBy update react p
  | .advance ms =>
    p.advanceToBy update react (p.now + Nanos.ofMillis ms) (timekeepers.length * (ms + 1))

/-- Takes steps one after the other. -/
def runBy (update : Reaction L μ → Panel L μ → Panel L μ) (react : Reaction L μ)
    (steps : List (Step L μ)) (p : Panel L μ) : Panel L μ :=
  steps.foldl (stepBy update react) p

theorem performBy_of_isQuiet {update : Reaction L μ → Panel L μ → Panel L μ}
    {react react' : Reaction L μ} {op : Operation L μ} (hop : op.isQuiet = true)
    (p : Panel L μ) : op.performBy update react' p = op.perform react p := by
  cases op <;> first | rfl | cases hop

/-! With the updates a panel makes by itself, this is what the panel does. -/

/-- The update of a panel. -/
abbrev ownUpdate : Reaction L μ → Panel L μ → Panel L μ :=
  fun react p => p.updateStatus react

variable (react : Reaction L μ)

theorem performBy_own (op : Operation L μ) (p : Panel L μ) :
    op.performBy ownUpdate react p = op.perform react p := by
  cases op <;> rfl

theorem carryOutBy_own (plan : Plan L μ) (p : Panel L μ) :
    plan.carryOutBy ownUpdate react p = plan.carryOut react p := by
  induction plan generalizing p with
  | finish completion => rfl
  | perform op next ih =>
    rw [Plan.carryOutBy, Plan.carryOut, performBy_own]
    exact ih _ _

theorem reactBy_own (conduct : Conduct L μ) (depth : Nat) :
    conduct.reactBy ownUpdate depth = conduct.react depth := by
  induction depth with
  | zero => rfl
  | succ depth ih =>
    funext l n p
    rw [Conduct.reactBy, Conduct.react, ih]
    exact carryOutBy_own _ _ p

theorem callTimekeeperBy_own (p : Panel L μ) (t : Timekeeper) :
    p.callTimekeeperBy ownUpdate react t = p.callTimekeeper react t := by
  cases t <;> rfl

theorem fireBy_own (p : Panel L μ) (t : Timekeeper) :
    p.fireBy ownUpdate react t = p.fire react t := by
  cases halarm : (p.clock t).alarm with
  | none => simp only [fireBy, fire, halarm]
  | some alarm => simp only [fireBy, fire, halarm, callTimekeeperBy_own]

theorem advanceToBy_own (target : Nanos) (fuel : Nat) (p : Panel L μ) :
    p.advanceToBy ownUpdate react target fuel = p.advanceTo react target fuel := by
  induction fuel generalizing p with
  | zero => rfl
  | succ fuel ih =>
    cases hwake : p.nextWake? with
    | none => simp only [advanceToBy, advanceTo, hwake]
    | some next => simp only [advanceToBy, advanceTo, hwake, ih, fireBy_own]

theorem runBy_own (steps : List (Step L μ)) (p : Panel L μ) :
    p.runBy ownUpdate react steps = p.run react steps := by
  have hstep : stepBy (L := L) (μ := μ) ownUpdate react = step react := by
    funext q s
    cases s with
    | operation op => exact performBy_own react op q
    | advance ms => exact advanceToBy_own react _ _ q
  rw [runBy, run, hstep]

end Panel

/-! ## Relations between the two panels -/

namespace Panel

/-- The relation holds on along what is asked of both panels. Panels that it relates differ
at most in their books, in the watch list and in what listeners remember. -/
structure Tandem (update : Reaction L μ → Panel L μ → Panel L μ) (react react' : Reaction L μ)
    (S : Panel L μ → Panel L μ → Prop) : Prop where
  same : ∀ {p q} {α : Type} (f : Panel L μ → α),
    (∀ list memory r, f (guise list memory r) = f r) → S p q → f q = f p
  quiet : ∀ {p q} {f : Panel L μ → Panel L μ}, Unseen f → (∀ r, Quiet r (f r)) → S p q →
    S (f p) (f q)
  register : ∀ {p q} pin, S p q → S (p.register pin) (q.register pin)
  unregister : ∀ {p q} name, S p q → S (p.unregister name).2 (q.unregister name).2
  subscribe : ∀ {p q} channel filter listener, S p q →
    S (p.subscribe channel filter listener).2 (q.subscribe channel filter listener).2
  unsubscribe : ∀ {p q} channel id, S p q →
    S (p.unsubscribe channel id).2 (q.unsubscribe channel id).2
  clear : ∀ {p q} channel, S p q → S (p.clear channel) (q.clear channel)
  remember : ∀ {p q} (change : μ → μ), S p q →
    S { p with memory := change p.memory } { q with memory := change q.memory }
  pollPins : ∀ {p q}, S p q → S (p.pollPins react).2 (q.pollPins react').2
  updateStatus : ∀ {p q}, S p q → S (p.updateStatus react) (update react' q)
  requestReload : ∀ {p q}, S p q → S (p.requestReload react) (q.requestReload react')
  emit : ∀ {p q} channel name notice, S p q →
    S (p.emit react .request channel name notice).2 (q.emit react' .request channel name notice).2

namespace Tandem

variable {S : Panel L μ → Panel L μ → Prop} {p q : Panel L μ} {react react' : Reaction L μ}
  {update : Reaction L μ → Panel L μ → Panel L μ} (h : Tandem update react react' S)
include h

theorem note (n : Note) (hS : S p q) : S (p.note n) (q.note n) :=
  h.quiet (f := fun r => r.note n) (fun _ _ _ => rfl) (fun r => quiet_note r n) hS

theorem setClock (t : Timekeeper) (c : Clock Unit) (hS : S p q) :
    S (p.setClock t c) (q.setClock t c) :=
  h.quiet (unseen_setClock t c) (fun r => quiet_setClock r t c) hS

theorem clock_eq (hS : S p q) (t : Timekeeper) : q.clock t = p.clock t :=
  h.same (·.clock t) (fun list memory r => clock_guise list memory r t) hS

theorem newPin (pin : Handle) (hS : S p q) : S (p.newPin pin).2 (q.newPin pin).2 := by
  have hcreate : S (p.createPin pin).2 (q.createPin pin).2 :=
    h.quiet (unseen_createPin pin) (fun r => quiet_createPin r pin) hS
  have hresult : (q.createPin pin).1 = (p.createPin pin).1 := by
    have hstore : q.store = p.store := h.same (·.store) (fun _ _ _ => rfl) hS
    unfold createPin
    rw [hstore]
    cases p.store.create pin <;> rfl
  unfold Panel.newPin
  rcases hp : p.createPin pin with ⟨result, p'⟩
  rcases hq : q.createPin pin with ⟨result', q'⟩
  rw [hp, hq] at hcreate hresult
  obtain rfl : result' = result := hresult
  cases result' with
  | error e => exact hcreate
  | ok created => exact h.register pin hcreate

theorem updatePins (hS : S p q) :
    (q.updatePins react').1 = (p.updatePins react).1 ∧
      S (p.updatePins react).2 (q.updatePins react').2 := by
  unfold Panel.updatePins
  rw [h.same (·.pins.enabled) (fun _ _ _ => rfl) hS]
  split
  · exact ⟨rfl, h.pollPins hS⟩
  · exact ⟨rfl, hS⟩

theorem tickPins (hS : S p q) : S (p.tickPins react).2 (q.tickPins react').2 := by
  unfold Panel.tickPins
  rw [h.same (·.pins.enabled) (fun _ _ _ => rfl) hS, h.same (·.driver) (fun _ _ _ => rfl) hS]
  split
  · exact h.pollPins hS
  · exact hS

theorem updateElements (hS : S p q) : S p.updateElements.2 q.updateElements.2 :=
  h.quiet (f := fun r => r.updateElements.2) (fun _ _ _ => rfl) (fun _ => rfl) hS

theorem tick (hS : S p q) : S (p.tick react).2 (q.tickBy update react') := by
  have hstatus : S (if p.driver.hasStatus then p.updateStatus react else p)
      (if q.driver.hasStatus then update react' q else q) := by
    rw [h.same (·.driver) (fun _ _ _ => rfl) hS]
    split
    · exact h.updateStatus hS
    · exact hS
  exact h.updateElements (h.tickPins hstatus)

theorem perform (op : Operation L μ) (hS : S p q) :
    S (op.perform react p) (op.performBy update react' q) := by
  by_cases hop : op.isQuiet = true
  · rw [performBy_of_isQuiet hop]
    exact h.quiet (unseen_perform hop) (quiet_perform hop) hS
  · cases op with
    | register pin => exact h.register pin hS
    | newPin pin => exact h.newPin pin hS
    | unregister name => exact h.unregister name hS
    | pollPins => exact h.pollPins hS
    | updatePins => exact (h.updatePins hS).2
    | updateStatus => exact h.updateStatus hS
    | requestReload => exact h.requestReload hS
    | subscribe channel filter listener => exact h.subscribe channel filter listener hS
    | unsubscribe channel id => exact h.unsubscribe channel id hS
    | clear channel => exact h.clear channel hS
    | emit channel name notice => exact h.emit channel name notice hS
    | tick => exact h.tick hS
    | remember change => exact h.remember change hS
    | _ => exact absurd rfl hop

theorem fire (t : Timekeeper) (hS : S p q) : S (p.fire react t) (q.fireBy update react' t) := by
  have hcall : ∀ {p q}, S p q →
      (q.callTimekeeperBy update react' t).1 = (p.callTimekeeper react t).1 ∧
        S (p.callTimekeeper react t).2 (q.callTimekeeperBy update react' t).2 := by
    intro p q hS
    cases t with
    | pins => exact h.updatePins hS
    | status => exact ⟨rfl, h.updateStatus hS⟩
    | driver => exact ⟨rfl, h.tick hS⟩
  unfold Panel.fire fireBy
  rw [h.clock_eq hS]
  cases (p.clock t).alarm with
  | none => exact hS
  | some alarm =>
    have hset := h.setClock t ((p.clock t).goOff alarm).2 hS
    simp only
    split
    · obtain ⟨hagain, hS'⟩ := hcall hset
      rw [hagain, h.clock_eq hS']
      have hsettle := fun c => h.setClock t c hS'
      split
      · exact hsettle _
      · exact h.note _ (hsettle _)
    · exact hset

theorem advanceTo (target : Nanos) (fuel : Nat) (hS : S p q) :
    S (p.advanceTo react target fuel) (q.advanceToBy update react' target fuel) := by
  have hnow : ∀ {p q} now, S p q → S { p with now } { q with now } := fun now hS =>
    h.quiet (f := fun r => { r with now }) (fun _ _ _ => rfl) (fun _ => rfl) hS
  induction fuel generalizing p q with
  | zero => exact hnow target hS
  | succ fuel ih =>
    have hwake : q.nextWake? = p.nextWake? :=
      h.same (·.nextWake?) nextWake?_guise hS
    unfold Panel.advanceTo advanceToBy
    rw [hwake]
    cases p.nextWake? with
    | none => exact hnow target hS
    | some next =>
      simp only
      split
      · exact ih (h.fire next.1 (hnow next.2 hS))
      · exact hnow target hS

theorem step (s : Step L μ) (hS : S p q) : S (p.step react s) (q.stepBy update react' s) := by
  cases s with
  | operation op => exact h.perform op hS
  | advance ms =>
    have hadvance := fun target fuel => h.advanceTo target fuel hS
    simp only [Panel.step, stepBy, advance, h.same (·.now) (fun _ _ _ => rfl) hS]
    exact hadvance _ _

/-- **What holds side by side as long as both do the same holds all along.** -/
theorem run (steps : List (Step L μ)) (hS : S p q) :
    S (p.run react steps) (q.runBy update react' steps) := by
  unfold Panel.run runBy
  induction steps generalizing p q with
  | nil => exact hS
  | cons s rest ih => exact ih (h.step s hS)

end Tandem

end Panel

end MachinePanel
