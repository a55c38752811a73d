/-
Ticks and time. A tick of the driver updates the status, then the pins, then
the elements. Time moves only when it is advanced: every alarm that falls due
on the way goes off at its moment, in the order of time.
-/
import MachinePanel.Panel.Pins
import MachinePanel.Panel.Status

namespace MachinePanel

/-- What a tick did. -/
structure TickReport where
  pinsChanged : Nat
  elements : UpdateCount
  deriving DecidableEq, Repr

namespace Panel

variable {L μ : Type}

/-- Updates all elements. -/
def updateElements (p : Panel L μ) : UpdateCount × Panel L μ :=
  let round := p.driver.forest.update p.store p.now
  let p :=
    { p with
      store := round.view.store
      driver := { p.driver with forest := round.forest } }
  (round.count, p.noteAll round.notes)

/-- Polls the pins, if ticks are to do that and the watcher is enabled. -/
def tickPins (react : Reaction L μ) (p : Panel L μ) : Nat × Panel L μ :=
  if p.driver.config.watchPins && p.pins.enabled then p.pollPins react else (0, p)

/-- One tick of the driver. -/
def tick (react : Reaction L μ) (p : Panel L μ) : TickReport × Panel L μ :=
  let p := if p.driver.hasStatus then p.updateStatus react else p
  let (pinsChanged, p) := p.tickPins react
  let (elements, p) := p.updateElements
  (⟨pinsChanged, elements⟩, p)

/-- Starts the clock of the driver. -/
def startDriver (p : Panel L μ) (driven : Bool) : Except PanelError Bool × Panel L μ :=
  match p.startClock .driver driven with
  | (.ok true, p) =>
    let c := p.driver.config
    (.ok true, p.note (.driverStarted c.tickIntervalMs.toNat c.watchPins))
  | r => r

/-- What a clock calls, and whether it wants to be called again. -/
def callTimekeeper (react : Reaction L μ) (p : Panel L μ) : Timekeeper → Bool × Panel L μ
  | .pins => p.updatePins react
  | .status => (true, p.updateStatus react)
  | .driver => (true, (p.tick react).2)

/-- The alarm of a clock goes off. -/
def fire (react : Reaction L μ) (p : Panel L μ) (t : Timekeeper) : Panel L μ :=
  match (p.clock t).alarm with
  | none => p
  | some alarm =>
    let (delivers, clock) := (p.clock t).goOff alarm
    let p := p.setClock t clock
    if delivers then
      let (again, p) := p.callTimekeeper react t
      let p := p.setClock t ((p.clock t).settle (alarm.renew clock.period ()) again)
      if again then p else p.note .clockStoppedByCallback
    else p

/-- The earlier of two wakes; of two at the same time, the first. -/
def earlier (a b : Option (Timekeeper × Nanos)) : Option (Timekeeper × Nanos) :=
  match a, b with
  | some a, some b => if b.2 < a.2 then some b else some a
  | none, b => b
  | a, none => a

/-- The clock that wakes next, and when. -/
def nextWake? (p : Panel L μ) : Option (Timekeeper × Nanos) :=
  (timekeepers.map fun t => (p.clock t).nextWake?.map (t, ·)).foldl earlier none

/-- The alarms that fall due up to a moment go off, at most so many times. -/
def advanceTo (react : Reaction L μ) (target : Nanos) : Nat → Panel L μ → Panel L μ
  | 0, p => { p with now := target }
  | fuel + 1, p =>
    match p.nextWake? with
    | none => { p with now := target }
    | some (t, wake) =>
      if wake ≤ target then advanceTo react target fuel (fire react { p with now := wake } t)
      else { p with now := target }

/-- Advances the time. The alarm of a clock goes off at most once in a
millisecond, which bounds how often any of them does. -/
def advance (react : Reaction L μ) (ms : Nat) (p : Panel L μ) : Panel L μ :=
  advanceTo react (p.now + Nanos.ofMillis ms) (timekeepers.length * (ms + 1)) p

end Panel

end MachinePanel
