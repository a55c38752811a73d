/-
Timing scenarios: a single clock whose callbacks write down when they are
called. A callback may stop the clock at one of its calls, start it again with
another callback, or ask not to be called any more.
-/
import MachinePanel.Clock
import MachinePanel.Error

namespace MachinePanel.Timing

/-- A callback, and at which of its calls it does something; the calls are
counted from one, so that zero means never. -/
structure Callback where
  label : String
  falseAt : Nat := 0
  stopAt : Nat := 0
  restartAt : Nat := 0
  restart : Option Callback := none

/-- A callback and how often it was called. -/
structure Caller where
  callback : Callback
  calls : Nat := 0

/-- What callbacks write down. -/
inductive Entry where
  | called (label : String) (n ms : Nat)
  | stopped (label : String) (wasRunning : Bool)
  | started (label : String) (isNew : Bool)

/-- The clock, the time, and the entries so far. -/
structure Bench where
  clock : Clock Caller
  now : Nanos := 0
  entries : Array Entry := #[]

namespace Bench

/-- Writes an entry down. -/
def write (b : Bench) (e : Entry) : Bench :=
  { b with entries := b.entries.push e }

/-- Starts the clock. -/
def start (b : Bench) (callback : Callback) : Bool × Bench :=
  let (started, clock) := b.clock.start b.now (Caller.mk callback 0)
  (started, { b with clock })

/-- Stops the clock. -/
def stop (b : Bench) : Bool × Bench :=
  let (stopped, clock) := b.clock.stop
  (stopped, { b with clock })

/-- Stops the clock at the calls that ask for it. -/
def stopDue (b : Bench) (c : Callback) (n : Nat) : Bench :=
  if n = c.stopAt ∨ n = c.restartAt then
    let (stopped, b) := b.stop
    b.write (.stopped c.label stopped)
  else b

/-- Starts the clock again at the call that asks for it. -/
def restartDue (b : Bench) (c : Callback) (n : Nat) : Bench :=
  if n = c.restartAt then
    match c.restart with
    | some next =>
      let (started, b) := b.start next
      b.write (.started c.label started)
    | none => b
  else b

/-- Calls a callback, and says whether it wants to be called again. -/
def call (b : Bench) (caller : Caller) : Bool × Bench :=
  let c := caller.callback
  let n := caller.calls + 1
  let b := b.write (.called c.label n b.now.toMillis)
  (n != c.falseAt, (b.stopDue c n).restartDue c n)

/-- The alarm goes off. -/
def fire (b : Bench) : Bench :=
  match b.clock.alarm with
  | none => b
  | some alarm =>
    let (delivers, clock) := b.clock.goOff alarm
    let b := { b with clock }
    if delivers then
      let (again, b) := b.call alarm.callback
      let next := { alarm.callback with calls := alarm.callback.calls + 1 }
      { b with clock := b.clock.settle (alarm.renew clock.period next) again }
    else b

/-- The alarm goes off whenever it falls due up to a moment, at most so many times. -/
def advanceTo (target : Nanos) : Nat → Bench → Bench
  | 0, b => { b with now := target }
  | fuel + 1, b =>
    match b.clock.nextWake? with
    | none => { b with now := target }
    | some wake =>
      if wake ≤ target then advanceTo target fuel { b with now := wake }.fire
      else { b with now := target }

/-- Advances the time. The alarm goes off at most once in a millisecond. -/
def advance (b : Bench) (ms : Nat) : Bench :=
  advanceTo (b.now + Nanos.ofMillis ms) (ms + 1) b

end Bench

/-- A step of a timing scenario. -/
inductive Step where
  | start (driven : Bool) (callback : Callback)
  | stop
  | state
  | advance (ms : Nat)
  /-- Gives the clock up, which also stops it. -/
  | drop

/-- The answer to a step. -/
inductive Answer where
  | done
  | flag (b : Bool)
  | state (running : Bool) (ticks : Nat) (period : Nanos)
  | error (e : PanelError)

/-- Carries out a step. -/
def Step.perform (step : Step) (b : Bench) : Answer × Bench :=
  match step with
  | start driven callback =>
    if driven then
      let (started, b) := b.start callback
      (.flag started, b)
    else (.error .noRuntime, b)
  | stop =>
    let (stopped, b) := b.stop
    (.flag stopped, b)
  | state => (.state b.clock.running b.clock.ticks b.clock.period, b)
  | advance ms => (.done, b.advance ms)
  | drop => (.done, b.stop.2)

/-- Carries out steps, each with its answer and the entries made meanwhile. -/
def runSteps : List Step → Bench → List (Answer × List Entry)
  | [], _ => []
  | step :: steps, b =>
    let (answer, b) := step.perform b
    (answer, b.entries.toList) :: runSteps steps { b with entries := #[] }

/-- Runs steps on a new clock. -/
def run (period : Nanos) (steps : List Step) : List (Answer × List Entry) :=
  runSteps steps { clock := .ofPeriod period }

end MachinePanel.Timing
