/-
How the watcher of pins can be enabled and disabled, over any course of events:
operations, time that passes and alarms that go off, with listeners that switch
the watcher in the course of a tick (`Turn`).

The log of switchings and the number of ticks say how the clock and the flag stand
(`SwitchedTo`): only a start sets the clock going, and a tick that finds the flag
cleared stops it. What a log with a disabling in it, or with a clearing of the
flag, says of the ticks since is read off it by induction (`SwitchedTo.disabled`,
`SwitchedTo.cleared`). That the log of a panel is such a log is shown once for all
switchings (`InOrder.switched`) and once for the alarm (`atRest_fire`).
-/
import MachinePanel.Proofs.Passes
import MachinePanel.Proofs.WatchClock

namespace MachinePanel

/-! ## Logs -/

namespace Switching

/-- Whether the clock runs after a switching. -/
def runningAfter (running : Bool) : Switching → Bool
  | enabled (.ok _) => true
  | enabled (.error _) | flagged _ => running
  | disabled => false

variable {s : Switching}

/-- Only a start sets a stopped clock going. -/
theorem runningAfter_of_stopped (hs : s.Truthful false) (hstarts : s.starts = false) :
    s.runningAfter false = false := by
  cases s with
  | enabled result =>
    cases result with
    | ok started =>
      have hstarted : started = true := hs started rfl
      rw [hstarted] at hstarts
      cases hstarts
    | error e => rfl
  | disabled | flagged on => rfl

theorem flagAfter_of_cleared (hsets : s.sets = false) : s.flagAfter false = false := by
  cases s with
  | enabled result =>
    cases result with
    | ok started => cases hsets
    | error e => rfl
  | disabled => rfl
  | flagged on =>
    cases on with
    | true => cases hsets
    | false => rfl

/-- What does not set the flag does not set the clock going either. -/
theorem runningAfter_of_cleared {running : Bool} (hsets : s.sets = false)
    (hr : running = false) : s.runningAfter running = false := by
  cases s with
  | enabled result =>
    cases result with
    | ok started => cases hsets
    | error e => exact hr
  | disabled => rfl
  | flagged on => exact hr

end Switching

/-- After these switchings and with so many ticks, the clock runs or not and the flag is set or
not. There are ticks only while the clock runs, and one that finds the flag cleared stops it. -/
inductive SwitchedTo : List Switch → Nat → Bool → Bool → Prop where
  | new : SwitchedTo [] 0 false false
  | tick {log : List Switch} {ticks : Nat} {flag : Bool} (h : SwitchedTo log ticks true flag) :
      SwitchedTo log (ticks + 1) flag flag
  | switch {log : List Switch} {ticks : Nat} {running flag : Bool} (s : Switching)
      (hs : s.Truthful running) (h : SwitchedTo log ticks running flag) :
      SwitchedTo (log ++ [⟨s, ticks⟩]) ticks (s.runningAfter running) (s.flagAfter flag)

/-- The last entry of a log that is split at an entry is that entry, or one of those after it. -/
theorem concat_eq_append_cons {α : Type} {log before since : List α} {last s : α}
    (h : log ++ [last] = before ++ s :: since) :
    since = [] ∧ s = last ∧ before = log ∨
      ∃ rest, since = rest ++ [last] ∧ log = before ++ s :: rest := by
  rcases List.eq_nil_or_concat' since with rfl | ⟨rest, x, rfl⟩
  · obtain ⟨hlog, hlast⟩ := List.append_inj' h rfl
    cases hlast
    exact .inl ⟨rfl, rfl, hlog.symm⟩
  · rw [← List.cons_append, ← List.append_assoc] at h
    obtain ⟨hlog, hlast⟩ := List.append_inj' h rfl
    cases hlast
    exact .inr ⟨rest, rfl, hlog⟩

namespace SwitchedTo

variable {log before since rest : List Switch} {ticks k : Nat} {running flag : Bool} {s : Switch}

/-- The flag is what the log says. -/
theorem flag_eq (h : SwitchedTo log ticks running flag) :
    flag = log.foldl (fun flag s => s.switching.flagAfter flag) false := by
  induction h with
  | new => rfl
  | tick h ih => exact ih
  | switch s hs h ih => rw [List.foldl_append, ← ih]; rfl

/-- A log up to an entry is a log too, with the ticks there were by then. -/
theorem upTo (h : SwitchedTo log ticks running flag) (hlog : log = before ++ s :: rest) :
    ∃ running flag, SwitchedTo before s.ticks running flag := by
  induction h generalizing rest with
  | new => simp at hlog
  | tick h ih => exact ih hlog
  | switch _ hs h ih =>
    rcases concat_eq_append_cons hlog with ⟨-, rfl, rfl⟩ | ⟨earlier, -, hearlier⟩
    · exact ⟨_, _, h⟩
    · exact ih hearlier

/-- **A watcher that was disabled has no tick until its clock is started.** -/
theorem disabled (h : SwitchedTo log ticks running flag)
    (hlog : log = before ++ ⟨.disabled, k⟩ :: since)
    (hsince : ∀ s ∈ since, s.switching.starts = false) : ticks = k ∧ running = false := by
  induction h generalizing since with
  | new => simp at hlog
  | tick h ih =>
    have hr := (ih hlog hsince).2
    cases hr
  | switch s hs h ih =>
    rcases concat_eq_append_cons hlog with ⟨-, hlast, -⟩ | ⟨earlier, rfl, hearlier⟩
    · cases hlast
      exact ⟨rfl, rfl⟩
    · simp only [List.mem_append, List.mem_singleton] at hsince
      obtain ⟨hticks, hr⟩ := ih hearlier fun s hs => hsince s (.inl hs)
      subst hr
      exact ⟨hticks, Switching.runningAfter_of_stopped hs (hsince _ (.inr rfl))⟩

/-- **Once the flag was cleared there is one more tick at most**, which has stopped the clock, as
long as the flag is not set again. -/
theorem cleared (h : SwitchedTo log ticks running flag)
    (hlog : log = before ++ ⟨.flagged false, k⟩ :: since)
    (hsince : ∀ s ∈ since, s.switching.sets = false) :
    flag = false ∧ (ticks = k ∨ ticks = k + 1 ∧ running = false) := by
  induction h generalizing since with
  | new => simp at hlog
  | tick h ih =>
    obtain ⟨hflag, hticks⟩ := ih hlog hsince
    refine ⟨hflag, ?_⟩
    rcases hticks with hticks | ⟨-, hr⟩
    · exact .inr ⟨by omega, hflag⟩
    · cases hr
  | switch s hs h ih =>
    rcases concat_eq_append_cons hlog with ⟨-, hlast, -⟩ | ⟨earlier, rfl, hearlier⟩
    · cases hlast
      exact ⟨rfl, .inl rfl⟩
    · simp only [List.mem_append, List.mem_singleton] at hsince
      obtain ⟨hflag, hticks⟩ := ih hearlier fun s hs => hsince s (.inl hs)
      have hsets := hsince _ (.inr rfl)
      subst hflag
      refine ⟨Switching.flagAfter_of_cleared hsets, ?_⟩
      rcases hticks with hticks | ⟨hticks, hr⟩
      · exact .inl hticks
      · exact .inr ⟨hticks, Switching.runningAfter_of_cleared hsets hr⟩

end SwitchedTo

/-! ## The watcher in order -/

section

variable {κ : Type} {c c' : Clock κ}

theorem Clock.Renewed.newest (h : c.Renewed c')
    (hnewest : ∀ a, c.alarm = some a → a.number = c.generation) :
    ∀ a, c'.alarm = some a → a.number = c'.generation := by
  intro a ha
  rcases h with ⟨hnumber, halarm, -⟩ | ⟨-, b, hb, hnumber⟩
  · rw [hnumber]
    exact hnewest a (halarm.symm.trans ha)
  · rw [hb] at ha
    cases ha
    exact hnumber

theorem Clock.Renewed.armed (h : c.Renewed c') (harmed : c.running = true → c.Armed) :
    c'.running = true → c'.Armed := by
  intro hr
  rcases h with ⟨hnumber, halarm, hrunning⟩ | ⟨-, harmed'⟩
  · obtain ⟨a, ha, hnewest⟩ := harmed (hrunning hr)
    exact ⟨a, halarm.trans ha, hnewest.trans hnumber.symm⟩
  · exact harmed'

end

variable {L μ : Type}

/-- The log goes with the flag and the clock. Every start has a number, and an alarm that is set
is that of the last. -/
structure PinWatcher.InOrder (w : PinWatcher L) : Prop where
  log : SwitchedTo w.switches w.clock.ticks w.clock.running w.enabled
  generation : w.clock.generation = w.switches.countP (·.switching.starts)
  newest : ∀ a, w.clock.alarm = some a → a.number = w.clock.generation

namespace Switching

variable {c : Clock Unit} {s : Switching}

theorem running_clockAfter (now : Nanos) (c : Clock Unit) (s : Switching) :
    (s.clockAfter now c).running = s.runningAfter c.running := by
  cases s with
  | enabled result =>
    cases result with
    | ok started =>
      simp only [clockAfter, runningAfter, Clock.start]
      split
      · assumption
      · rfl
    | error e => rfl
  | disabled | flagged on => rfl

theorem generation_clockAfter (now : Nanos) (hs : s.Truthful c.running) :
    (s.clockAfter now c).generation = c.generation + [s].countP starts := by
  cases s with
  | enabled result =>
    cases result with
    | ok started =>
      obtain rfl := hs started rfl
      simp only [clockAfter, Clock.start, List.countP_singleton, starts]
      by_cases hr : c.running = true <;> simp [hr]
    | error e => rfl
  | disabled | flagged on => rfl

end Switching

namespace PinWatcher.InOrder

variable {w w' : PinWatcher L}

theorem of_eq (h : w.InOrder) (henabled : w'.enabled = w.enabled) (hclock : w'.clock = w.clock)
    (hswitches : w'.switches = w.switches) : w'.InOrder := by
  obtain ⟨hlog, hgeneration, hnewest⟩ := h
  refine ⟨?_, ?_, ?_⟩
  · rw [hswitches, hclock, henabled]
    exact hlog
  · rw [hswitches, hclock]
    exact hgeneration
  · rw [hclock]
    exact hnewest

/-- **Every switching leaves the watcher in order.** -/
theorem switched (h : w.InOrder) (now : Nanos) {s : Switching} (hs : s.Truthful w.clock.running) :
    (w.switched now s).InOrder where
  log := by
    simp only [PinWatcher.switched, s.running_clockAfter, s.ticks_clockAfter]
    exact h.log.switch s hs
  generation := by
    have hstarts : [(⟨s, w.clock.ticks⟩ : Switch)].countP (·.switching.starts) =
        [s].countP Switching.starts := by simp [List.countP_singleton]
    simp only [PinWatcher.switched, List.countP_append, hstarts, s.generation_clockAfter now hs,
      h.generation]
  newest := (s.renewed_clockAfter now w.clock).newest h.newest

end PinWatcher.InOrder

/-- A watcher in order, with the alarm set if the clock runs. It is so unless a tick is under
way. -/
structure PinWatcher.AtRest (w : PinWatcher L) : Prop extends w.InOrder where
  armed : w.clock.running = true → w.clock.Armed

namespace Panel

variable {p q r : Panel L μ} {react : Reaction L μ}

/-- From `p` to `q` there is no tick, and the watcher stays in order. -/
structure Onward (p q : Panel L μ) : Prop where
  ticks : q.pins.clock.ticks = p.pins.clock.ticks
  renewed : p.pins.clock.Renewed q.pins.clock
  inOrder : p.pins.InOrder → q.pins.InOrder

theorem Onward.trans (h : Onward p q) (h' : Onward q r) : Onward p r :=
  ⟨h'.ticks.trans h.ticks, h.renewed.trans h'.renewed, h'.inOrder ∘ h.inOrder⟩

theorem Onward.atRest (h : Onward p q) (hp : p.pins.AtRest) : q.pins.AtRest where
  toInOrder := h.inOrder hp.toInOrder
  armed := h.renewed.armed hp.armed

theorem unswitched_onward : Unswitched (Onward (L := L) (μ := μ)) where
  trans := Onward.trans
  same henabled hclock hswitches :=
    ⟨by rw [hclock], hclock ▸ .refl _, fun h => h.of_eq henabled hclock hswitches⟩

theorem onward_switch {op : Operation L μ} (hop : op.switches = true) (p : Panel L μ) :
    Onward p (op.perform react p) := by
  obtain ⟨s, hs, hpins⟩ := pins_perform react hop p
  have hclock : (op.perform react p).pins.clock = s.clockAfter p.now p.pins.clock := by
    rw [hpins]
    rfl
  refine ⟨?_, ?_, fun h => ?_⟩
  · rw [hclock, s.ticks_clockAfter]
  · rw [hclock]
    exact s.renewed_clockAfter p.now p.pins.clock
  · rw [hpins]
    exact h.switched p.now hs

theorem onward_reaction (conduct : Conduct L μ) (depth : Nat) (l : L) (n : Notice)
    (p : Panel L μ) : Onward p (conduct.react depth l n p).2 :=
  unswitched_onward.reaction_of_switch (fun _ _ p hop => onward_switch hop p) conduct depth l n p

variable (hreact : ∀ l n (p : Panel L μ), Onward p (react l n p).2)
include hreact

/-- The callback of a tick that finds the flag set. -/
theorem onward_called (he : p.pins.enabled = true) :
    Onward (p.setClock .pins p.pins.clock.ticked)
      ((p.setClock .pins p.pins.clock.ticked).pollPins react).2 := by
  have hcalled := unswitched_onward.updatePins hreact (p.setClock .pins p.pins.clock.ticked)
  have hflag : (p.setClock .pins p.pins.clock.ticked).pins.enabled = true := he
  rwa [updatePins_of_enabled hflag] at hcalled

omit hreact

theorem inOrder_ticked (h : p.pins.InOrder) (hr : p.pins.clock.running = true)
    (he : p.pins.enabled = true) : (p.setClock .pins p.pins.clock.ticked).pins.InOrder where
  log := by
    have hlog := h.log
    rw [hr, he] at hlog
    have hticked := hlog.tick
    change SwitchedTo _ _ p.pins.clock.running p.pins.enabled
    rw [hr, he]
    exact hticked
  generation := h.generation
  newest := nofun

theorem inOrder_settle (h : p.pins.InOrder) (a : Alarm Unit) :
    (p.setClock .pins (p.pins.clock.settle a true)).pins.InOrder := by
  by_cases ha : a.number = p.pins.clock.generation
  · have hsettle : p.pins.clock.settle a true = { p.pins.clock with alarm := some a } := if_pos ha
    rw [hsettle]
    refine ⟨h.log, h.generation, fun b hb => ?_⟩
    cases hb
    exact ha
  · rw [Clock.settle_of_superseded ha]
    exact h

/-- **The alarm of the watcher goes off.** A tick is delivered only while the clock runs, and goes
by the flag. -/
theorem atRest_fire (hreact : ∀ l n (p : Panel L μ), Onward p (react l n p).2)
    (h : p.pins.AtRest) : (p.fire react .pins).pins.AtRest := by
  cases hr : p.pins.clock.running with
  | false =>
    rw [fire_of_stopped h.newest hr]
    refine ⟨⟨h.log, h.generation, fun a ha => ?_⟩, fun hr' => ?_⟩
    · cases ha
    · cases hr.symm.trans hr'
  | true =>
    obtain ⟨a, halarm, ha⟩ := h.armed hr
    cases he : p.pins.enabled with
    | false =>
      rw [fire_of_cleared halarm ha hr he]
      have hlog := h.log
      rw [hr, he] at hlog
      refine ⟨⟨?_, h.generation, fun a ha => ?_⟩, fun hr' => ?_⟩
      · change SwitchedTo _ _ false p.pins.enabled
        rw [he]
        exact hlog.tick
      · cases ha
      · cases hr'
    | true =>
      have hcalled := onward_called hreact he
      rw [fire_of_enabled halarm ha hr he]
      have hflag : (p.setClock .pins p.pins.clock.ticked).pins.enabled = true := he
      rw [updatePins_of_enabled hflag]
      refine ⟨inOrder_settle (hcalled.inOrder (inOrder_ticked h.toInOrder hr he)) _, fun _ => ?_⟩
      exact hcalled.renewed.armed_settle ha

theorem atRest_new (setup : Setup) (memory : μ) :
    (Panel.new setup memory : Panel L μ).pins.AtRest := by
  have hpins : (Panel.new setup memory : Panel L μ).pins =
      { clock := Setup.clockOf setup.pinIntervalMs Clock.defaultPeriod } := by
    unfold new
    simp only
    split
    · unfold attachStatus
      simp only
      split <;> rfl
    · rfl
  rw [hpins]
  exact ⟨⟨.new, rfl, nofun⟩, nofun⟩

end Panel

/-! ## Whatever happens -/

/-- One thing that happens to a panel: an operation, an alarm that goes off, or time that passes. -/
inductive Turn (L μ : Type) where
  | operation (op : Operation L μ)
  | wake (t : Panel.Timekeeper)
  | time (now : Nanos)

namespace Panel

variable {p q : Panel L μ} {react : Reaction L μ} {R : Panel L μ → Panel L μ → Prop}

/-- The panel after a turn. -/
def turn (react : Reaction L μ) (p : Panel L μ) : Turn L μ → Panel L μ
  | .operation op => op.perform react p
  | .wake t => p.fire react t
  | .time now => { p with now }

/-- The panel after several turns. -/
def turns (react : Reaction L μ) (turns : List (Turn L μ)) (p : Panel L μ) : Panel L μ :=
  turns.foldl (turn react) p

/-- A relation that holds along each turn holds over any turns. -/
theorem Strand.turns (h : Strand R) (hturn : ∀ turn p, R p (Panel.turn react p turn))
    (turns : List (Turn L μ)) (p : Panel L μ) : R p (p.turns react turns) := by
  unfold Panel.turns
  induction turns generalizing p with
  | nil => exact h.refl p
  | cons turn rest ih => exact h.trans (hturn turn p) (ih _)

theorem Permanent.turns (h : Permanent R) (conduct : Conduct L μ) (depth : Nat)
    (turns : List (Turn L μ)) (p : Panel L μ) : R p (p.turns (conduct.react depth) turns) := by
  have hreact := h.reaction conduct depth
  have hclosed := (h.steady hreact).closed
  have hupdate := h.updateStatus hreact
  refine h.strand.turns (fun turn p => ?_) turns p
  cases turn with
  | operation op => exact hclosed.perform fun _ => hupdate p
  | wake t =>
    exact hclosed.fire (fun p => ⟨fun _ => hupdate p, fun _ => hupdate p, fun _ => hupdate p⟩) p t
  | time now => exact h.chore (.now now)

/-- A relation that holds along all switches holds along every turn but the watcher's alarm. -/
theorem Unswitched.turn (h : Unswitched R) (hreact : ∀ l n p, R p (react l n p).2)
    (hswitch : ∀ (op : Operation L μ) p, op.switches = true → R p (op.perform react p))
    {turn : Turn L μ} (hturn : turn ≠ .wake .pins) (p : Panel L μ) :
    R p (p.turn react turn) := by
  cases turn with
  | operation op => exact h.perform hreact op p (hswitch op p)
  | wake t =>
    have ht : t ≠ .pins := fun ht => hturn (by rw [ht])
    exact h.fire hreact ht p
  | time now => exact h.same rfl rfl rfl

theorem turns_append (turns later : List (Turn L μ)) (p : Panel L μ) :
    p.turns react (turns ++ later) = (p.turns react turns).turns react later :=
  List.foldl_append ..

/-- Time that passes is a course of turns, as alarms go off one after the other. -/
theorem exists_turns_advanceTo (target : Nanos) (fuel : Nat) (p : Panel L μ) :
    ∃ turns, p.advanceTo react target fuel = p.turns react turns := by
  induction fuel generalizing p with
  | zero => exact ⟨[.time target], rfl⟩
  | succ fuel ih =>
    unfold advanceTo
    split
    · exact ⟨[.time target], rfl⟩
    · next t wake _ =>
      split
      · obtain ⟨turns, hturns⟩ := ih (fire react { p with now := wake } t)
        exact ⟨.time wake :: .wake t :: turns, hturns⟩
      · exact ⟨[.time target], rfl⟩

/-- Every run is a course of turns. -/
theorem exists_turns (steps : List (Step L μ)) (p : Panel L μ) :
    ∃ turns, p.run react steps = p.turns react turns := by
  induction steps generalizing p with
  | nil => exact ⟨[], rfl⟩
  | cons step rest ih =>
    have hstep : ∃ turns, p.step react step = p.turns react turns := by
      cases step with
      | operation op => exact ⟨[.operation op], rfl⟩
      | advance ms => exact exists_turns_advanceTo _ _ p
    obtain ⟨turns, hturns⟩ := hstep
    obtain ⟨later, hlater⟩ := ih (p.step react step)
    refine ⟨turns ++ later, ?_⟩
    rw [turns_append, ← hturns]
    exact hlater

theorem onward_turn (hreact : ∀ l n (p : Panel L μ), Onward p (react l n p).2) {turn : Turn L μ}
    (hturn : turn ≠ .wake .pins) (p : Panel L μ) : Onward p (p.turn react turn) :=
  unswitched_onward.turn hreact (fun _ p hop => onward_switch hop p) hturn p

/-- **The watcher is in order after any turns.** -/
theorem atRest_turns (conduct : Conduct L μ) (depth : Nat) (turns : List (Turn L μ))
    {p : Panel L μ} (h : p.pins.AtRest) : (p.turns (conduct.react depth) turns).pins.AtRest := by
  have hreact := onward_reaction conduct depth
  have hstrand : Strand fun p q : Panel L μ => p.pins.AtRest → q.pins.AtRest :=
    ⟨fun _ => id, fun h h' hp => h' (h hp), fun _ _ _ => id⟩
  refine hstrand.turns (fun turn p => ?_) turns p h
  by_cases hturn : turn = .wake .pins
  · rw [hturn]
    exact atRest_fire hreact
  · exact (onward_turn hreact hturn p).atRest

/-! ## The log over turns -/

/-- The log keeps all that is in it. -/
theorem unswitched_log : Unswitched fun p q : Panel L μ => p.pins.switches <+: q.pins.switches where
  trans := List.IsPrefix.trans
  same _ _ hswitches := hswitches ▸ List.prefix_refl _

theorem log_turns (conduct : Conduct L μ) (depth : Nat) (turns : List (Turn L μ))
    (p : Panel L μ) : p.pins.switches <+: (p.turns (conduct.react depth) turns).pins.switches := by
  have hswitch : ∀ (react : Reaction L μ) (op : Operation L μ) (p : Panel L μ),
      op.switches = true → p.pins.switches <+: (op.perform react p).pins.switches := by
    intro react op p hop
    obtain ⟨s, -, hpins⟩ := pins_perform react hop p
    rw [hpins]
    exact List.prefix_append ..
  have hreact := unswitched_log.reaction_of_switch hswitch conduct depth
  refine unswitched_log.strand.turns (fun turn p => ?_) turns p
  by_cases hturn : turn = .wake .pins
  · have hclock : ∀ (q : Panel L μ) c, q.pins.switches <+: (q.setClock .pins c).pins.switches :=
      fun _ _ => List.prefix_refl _
    rw [hturn]
    exact (unswitched_log.sideways hreact).fire hclock (unswitched_log.updatePins hreact) p
  · exact unswitched_log.turn hreact (hswitch _) hturn p

end Panel

/-- The happening changes the watch list. -/
def Happening.rewatches {L : Type} : Happening L → Bool
  | registered .. | unregistered _ | pass _ => true
  | _ => false

namespace Panel

variable {p q : Panel L μ} {react : Reaction L μ}

theorem after_of_idle {happenings : List (Happening L)}
    (h : ∀ x ∈ happenings, x.rewatches = false) (w : Watched) :
    passLedger.after w happenings = w := by
  induction happenings generalizing w with
  | nil => rfl
  | cons x rest ih =>
    have hx : x.rewatch w = w := by
      have hfalse := h x (List.mem_cons_self ..)
      cases x <;> first | rfl | cases hfalse
    have hrest := ih (fun y hy => h y (List.mem_cons_of_mem x hy)) (x.rewatch w)
    exact hrest.trans hx

/-- As long as nobody registers or unregisters a pin and no pass is made, the list stays as
it is, with the values seen. -/
theorem list_turns (conduct : Conduct L μ) (depth : Nat) (turns : List (Turn L μ))
    (h : ∀ x ∈ since p (p.turns (conduct.react depth) turns), x.rewatches = false) :
    (p.turns (conduct.react depth) turns).pins.list = p.pins.list :=
  congrArg Watched.list
    ((passes_permanent.turns conduct depth turns p).view.trans (after_of_idle h _))

end Panel

/-! ## The protocol -/

/-- One alarm counts at most, and does so while the clock runs. All others do nothing. -/
structure Clock.OneAlarm {κ : Type} (c : Clock κ) : Prop where
  newest : ∀ a, c.alarm = some a → a.number = c.generation
  armed : c.running = true → c.Armed
  superseded : ∀ a : Alarm κ, a.number ≠ c.generation →
    c.goOff a = (false, c) ∧ ∀ again, c.settle a again = c

/-- What a log says of the ticks. -/
structure PinWatcher.Accounted (w : PinWatcher L) : Prop where
  flag : w.enabled = w.switches.foldl (fun flag s => s.switching.flagAfter flag) false
  /-- There has been no tick since the watcher was disabled, unless the clock was started. -/
  disabled : ∀ before since k, w.switches = before ++ ⟨.disabled, k⟩ :: since →
    (∀ s ∈ since, s.switching.starts = false) →
      w.clock.ticks = k ∧ w.clock.running = false
  disabled_upTo : ∀ before since k s rest,
    w.switches = before ++ ⟨.disabled, k⟩ :: (since ++ s :: rest) →
    (∀ s ∈ since, s.switching.starts = false) → s.ticks = k
  /-- There has been one tick at most since the flag was cleared, unless it was set again. -/
  cleared : ∀ before since k, w.switches = before ++ ⟨.flagged false, k⟩ :: since →
    (∀ s ∈ since, s.switching.sets = false) →
      w.enabled = false ∧
        (w.clock.ticks = k ∨ w.clock.ticks = k + 1 ∧ w.clock.running = false)
  cleared_upTo : ∀ before since k s rest,
    w.switches = before ++ ⟨.flagged false, k⟩ :: (since ++ s :: rest) →
    (∀ s ∈ since, s.switching.sets = false) → s.ticks = k ∨ s.ticks = k + 1

theorem PinWatcher.InOrder.accounted {w : PinWatcher L} (h : w.InOrder) : w.Accounted where
  flag := h.log.flag_eq
  disabled _ _ _ hlog hsince := h.log.disabled hlog hsince
  disabled_upTo before since k s rest hlog hsince := by
    rw [← List.cons_append, ← List.append_assoc] at hlog
    obtain ⟨_, _, hupTo⟩ := h.log.upTo hlog
    exact (hupTo.disabled rfl hsince).1
  cleared _ _ _ hlog hsince := h.log.cleared hlog hsince
  cleared_upTo before since k s rest hlog hsince := by
    rw [← List.cons_append, ← List.append_assoc] at hlog
    obtain ⟨_, _, hupTo⟩ := h.log.upTo hlog
    rcases (hupTo.cleared rfl hsince).2 with hticks | ⟨hticks, -⟩
    · exact .inl hticks
    · exact .inr hticks

namespace Panel

variable {p q : Panel L μ} {react : Reaction L μ}

/-- What enabling, disabling and setting the flag do to the watcher, at whatever moment. Each is
taken down in the log, and none of them touches the list or the values that were seen. -/
structure Switches (p : Panel L μ) : Prop where
  enable : (p.enablePins true).1 = .ok (!p.pins.clock.running) ∧
    (p.enablePins true).2.pins = p.pins.switched p.now (.enabled (.ok (!p.pins.clock.running)))
  /-- Enabling while the clock runs is refused, and sets the flag. -/
  running : p.pins.clock.running = true → (p.enablePins true).1 = .ok false ∧
    (p.enablePins true).2.pins.enabled = true ∧
    (p.enablePins true).2.pins.clock = p.pins.clock
  disable : p.disablePins.pins = p.pins.switched p.now .disabled
  setFlag : ∀ enabled, (p.setPinsEnabled enabled).pins = p.pins.switched p.now (.flagged enabled)
  kept : ∀ (react : Reaction L μ) (op : Operation L μ), op.switches = true →
    (op.perform react p).pins.list = p.pins.list ∧
      (op.perform react p).pins.registrations = p.pins.registrations

theorem switches_of_panel (p : Panel L μ) : p.Switches where
  enable := p.enablePins_driven
  running hr := by
    obtain ⟨hresult, hpins⟩ := p.enablePins_driven
    rw [hr] at hresult hpins
    refine ⟨hresult, by rw [hpins]; rfl, ?_⟩
    rw [hpins]
    exact congrArg Prod.snd (Clock.start_of_running hr p.now ())
  disable := p.pins_disablePins
  setFlag := p.pins_setPinsEnabled
  kept react op hop := by
    obtain ⟨s, -, hpins⟩ := pins_perform react hop p
    rw [hpins]
    exact ⟨rfl, rfl⟩

/-- What becomes of `p` when the alarm of its watcher goes off. -/
structure Wakes (react : Reaction L μ) (p q : Panel L μ) : Prop where
  /-- A clock that is stopped delivers no tick. -/
  stopped : p.pins.clock.running = false → q = p.setClock .pins { p.pins.clock with alarm := none }
  /-- A tick that finds the flag cleared makes no pass and stops the clock. -/
  cleared : p.pins.clock.running = true → p.pins.enabled = false →
    q = (p.setClock .pins
      { p.pins.clock with ticks := p.pins.clock.ticks + 1, alarm := none, running := false }).note
        .clockStoppedByCallback
  /-- A tick that finds the flag set makes a pass. In the course of it the alarm counts as long as
  no newer one is set, and it is set again if it still counts in the end. -/
  enabled : p.pins.clock.running = true → p.pins.enabled = true →
    let ticked := { p.pins.clock with ticks := p.pins.clock.ticks + 1, alarm := none }
    let called := ((p.setClock .pins ticked).pollPins react).2
    (∃ calls changed, q.past = p.past ++ .pass (WatchPass.run p.store p.pins.list).readings ::
      (calls ++ [.passEnd p.past.length changed])) ∧
    q.pins.clock.ticks = p.pins.clock.ticks + 1 ∧ ticked.Renewed called.pins.clock ∧
    ∃ a, p.pins.clock.alarm = some a ∧
      q = called.setClock .pins (called.pins.clock.settle (a.renew p.pins.clock.period ()) true)

theorem wakes_fire (conduct : Conduct L μ) (depth : Nat) (h : p.pins.AtRest) :
    Wakes (conduct.react depth) p (p.fire (conduct.react depth) .pins) := by
  refine ⟨fun hr => fire_of_stopped h.newest hr, fun hr he => ?_, fun hr he => ?_⟩
  · obtain ⟨a, halarm, ha⟩ := h.armed hr
    exact fire_of_cleared halarm ha hr he
  · obtain ⟨a, halarm, ha⟩ := h.armed hr
    have hcalled := onward_called (onward_reaction conduct depth) he
    have hflag : (p.setClock .pins p.pins.clock.ticked).pins.enabled = true := he
    have hfire : p.fire (conduct.react depth) .pins = _ := fire_of_enabled halarm ha hr he
    rw [updatePins_of_enabled hflag] at hfire
    rw [hfire]
    intro ticked called
    refine ⟨?_, ?_, hcalled.renewed, a, halarm, rfl⟩
    · obtain ⟨calls, hcalls⟩ := past_pollPins (grows_permanent.reaction conduct depth)
        (p.setClock .pins ticked)
      exact ⟨calls, _, hcalls⟩
    · have hsettle : ∀ (c : Clock Unit) (a : Alarm Unit), (c.settle a true).ticks = c.ticks := by
        intro c a
        unfold Clock.settle
        split <;> rfl
      exact (hsettle _ _).trans hcalled.ticks

/-- **The watcher of pins and its own clock**, after any turns and whatever listeners do. One
alarm counts at most, and every start that succeeded has a number of its own. A tick makes a pass
only if it finds the flag set, and nothing but the alarm makes a tick. Once the watcher is
disabled there is no tick until enabling starts the clock again. Once the flag is cleared there
is one more tick at most, unless the flag is set again. The log keeps every switching, with what
it does to the watcher. None of them touches the list, so that the next pass tells of all that has
changed since the last. And every run is made up of such turns. -/
theorem watch_protocol (setup : Setup) (memory : μ) (conduct : Conduct L μ) (depth : Nat)
    (turns : List (Turn L μ)) :
    let react := conduct.react depth
    let start : Panel L μ := Panel.new setup memory
    let p := start.turns react turns
    let c := p.pins.clock
    (c.OneAlarm ∧ c.generation = p.pins.switches.countP (·.switching.starts)) ∧
    Wakes react p (p.fire react .pins) ∧
    (∀ turn, turn ≠ .wake .pins →
      (p.turn react turn).pins.clock.ticks = c.ticks ∧
        c.Renewed (p.turn react turn).pins.clock) ∧
    p.pins.Accounted ∧
    (∀ q : Panel L μ, q.Switches) ∧
    (∀ later, p.pins.switches <+: (p.turns react later).pins.switches) ∧
    (∀ later,
      let q := p.turns react later
      (∀ x ∈ since p q, x.rewatches = false) →
        (WatchPass.run q.store q.pins.list).changed =
          (p.pins.list.filter fun w => w.isTold (q.store.readAs w.pin)).map (·.pin.name)) ∧
    ∀ steps, ∃ turns, start.run react steps = start.turns react turns := by
  intro react start p c
  have hreact := onward_reaction conduct depth
  have hp : p.pins.AtRest := atRest_turns conduct depth turns (atRest_new setup memory)
  refine ⟨⟨⟨hp.newest, hp.armed, fun a ha => ?_⟩, hp.generation⟩, wakes_fire conduct depth hp,
    fun turn hturn => ?_, hp.accounted, switches_of_panel,
    fun later => log_turns conduct depth later p, fun later => ?_,
    fun steps => exists_turns steps start⟩
  · exact ⟨Clock.goOff_of_superseded ha, Clock.settle_of_superseded ha⟩
  · have honward := onward_turn hreact hturn p
    exact ⟨honward.ticks, honward.renewed⟩
  · intro q hidle
    rw [← list_turns conduct depth later hidle]
    exact (WatchPass.run_eq _ _).2.2

/-- A listener that disables the watcher, enables it again and clears the flag. -/
def toggling : Conduct Unit Unit := fun _ _ _ =>
  .perform .disablePins fun _ => .perform (.enablePins true) fun _ =>
    .perform (.setPinsEnabled false) fun _ => .finish .returned

/-- The watcher is enabled with a pin to be told of, and its alarm goes off twice. -/
def toggles : List (Turn Unit Unit) :=
  [.operation (.newPin ⟨"p", .input, .bit⟩), .operation (.subscribe .pins .any ()),
    .operation (.enablePins true), .wake .pins, .wake .pins]

theorem watch_protocol_toggles :
    let p := (Panel.new {} ()).turns (toggling.react 1) toggles
    p.pins.switches =
      [⟨.enabled (.ok true), 0⟩, ⟨.disabled, 1⟩, ⟨.enabled (.ok true), 1⟩, ⟨.flagged false, 1⟩] ∧
    p.pins.clock.generation = 2 ∧ p.pins.clock.ticks = 2 ∧ p.pins.clock.running = false := by
  intro p
  obtain ⟨⟨-, hgeneration⟩, -, -, haccounted, -⟩ := watch_protocol {} () toggling 1 toggles
  have hlog : p.pins.switches =
      [⟨.enabled (.ok true), 0⟩, ⟨.disabled, 1⟩, ⟨.enabled (.ok true), 1⟩,
        ⟨.flagged false, 1⟩] := by rfl
  have hticks : p.pins.clock.ticks = 2 := by rfl
  obtain ⟨-, hcleared⟩ := haccounted.cleared
    [⟨.enabled (.ok true), 0⟩, ⟨.disabled, 1⟩, ⟨.enabled (.ok true), 1⟩] [] 1 hlog nofun
  refine ⟨hlog, ?_, hticks, ?_⟩
  · change p.pins.clock.generation = p.pins.switches.countP _ at hgeneration
    rw [hgeneration, hlog]
    rfl
  · rcases hcleared with hone | ⟨-, hstopped⟩
    · exact absurd (hticks.symm.trans hone) (by decide)
    · exact hstopped

end Panel

end MachinePanel
