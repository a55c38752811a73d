/-
A clock that calls back once every period. Starting a stopped clock sets an
alarm with a number of its own; a running clock is not started again. Stopping
a clock leaves its alarm alone: an alarm that goes off calls only if it is the
newest and the clock runs, and ends otherwise.

An alarm is set again when its callback has returned. The callback may stop the
clock and start it anew, so the alarm may by then have been replaced: what its
callback returns is then of no consequence. `goOff` and `settle` are the two
halves of this; `start_of_running`, `goOff_of_superseded` and
`settle_of_superseded` say when they change nothing.
-/
import MachinePanel.Time

namespace MachinePanel

/-- An alarm: its number, when it is due, and whom it calls. -/
structure Alarm (κ : Type) where
  number : Nat
  deadline : Nanos
  callback : κ

/-- The alarm for the next time, one period after the last, with the callback as it has become. -/
def Alarm.renew {κ : Type} (a : Alarm κ) (period : Nanos) (callback : κ) : Alarm κ :=
  { a with deadline := a.deadline + period, callback }

/-- A clock that calls callbacks of type `κ`. -/
structure Clock (κ : Type) where
  period : Nanos
  running : Bool := false
  /-- The number of the newest alarm; the first one has the number one. -/
  generation : Nat := 0
  /-- The number of ticks delivered so far. -/
  ticks : Nat := 0
  /-- The newest alarm, while it is set. -/
  alarm : Option (Alarm κ) := none

namespace Clock

variable {κ : Type} {c : Clock κ} {a : Alarm κ}

/-- The period of a clock for which none is given. -/
def defaultPeriod : Nanos := Nanos.ofMillis 100

/-- A stopped clock. Its period is at least a millisecond. -/
def ofPeriod (period : Nanos) : Clock κ where
  period := max period (Nanos.ofMillis 1)

/-- Starts a stopped clock, whose first tick is due one period from now. Its
new alarm takes the place of the one before. Says whether it was started. -/
def start (c : Clock κ) (now : Nanos) (callback : κ) : Bool × Clock κ :=
  if c.running then (false, c)
  else
    let number := c.generation + 1
    (true,
      { c with
        running := true
        generation := number
        alarm := some ⟨number, now + c.period, callback⟩ })

/-- Stops a clock, and says whether it was running. -/
def stop (c : Clock κ) : Bool × Clock κ :=
  (c.running, { c with running := false })

/-- When the alarm goes off: at the first whole millisecond from its deadline on. -/
def nextWake? (c : Clock κ) : Option Nanos :=
  c.alarm.map fun a => a.deadline.ceilToMillis

/-- An alarm goes off. Says whether it delivers a tick; it ends if it does not. -/
def goOff (c : Clock κ) (a : Alarm κ) : Bool × Clock κ :=
  if a.number = c.generation then
    if c.running then (true, { c with ticks := c.ticks + 1, alarm := none })
    else (false, { c with alarm := none })
  else (false, c)

/-- The callback of an alarm has returned, and the alarm is as given for the
next time. It is set again if the callback wants another call; if not, it ends
and the clock stops with it. -/
def settle (c : Clock κ) (a : Alarm κ) (again : Bool) : Clock κ :=
  if a.number = c.generation then
    if again then { c with alarm := some a } else { c with running := false }
  else c

theorem start_of_running (h : c.running = true) (now : Nanos) (callback : κ) :
    c.start now callback = (false, c) := by
  simp [start, h]

theorem start_of_stopped (h : c.running = false) (now : Nanos) (callback : κ) :
    c.start now callback =
      (true, { c with
        running := true
        generation := c.generation + 1
        alarm := some ⟨c.generation + 1, now + c.period, callback⟩ }) := by
  simp [start, h]

/-- The alarm of an earlier start delivers nothing. -/
theorem goOff_of_superseded (h : a.number ≠ c.generation) : c.goOff a = (false, c) := by
  simp [goOff, h]

/-- What the callback of an earlier start returns changes nothing. -/
theorem settle_of_superseded (h : a.number ≠ c.generation) (again : Bool) :
    c.settle a again = c := by
  simp [settle, h]

/-- The description of a clock. -/
def text (c : Clock κ) : String :=
  "Clock \x7b period: " ++ c.period.text ++ ", running: " ++ toString c.running ++
    ", ticks: " ++ toString c.ticks ++ " \x7d"

end Clock

end MachinePanel
