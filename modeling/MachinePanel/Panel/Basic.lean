/-
The panel: pins, watchers, elements and clocks in one state, with the buses
that carry its events. Listeners are values of a type `L`; they share a memory
of a type `μ`, which the panel keeps for them and never looks at.
-/
import MachinePanel.Clock
import MachinePanel.Config
import MachinePanel.Forest
import MachinePanel.Machine.Changes
import MachinePanel.Panel.History

namespace MachinePanel

/-- What can be done to the flag of the pin watcher and to its clock. -/
inductive Switching where
  /-- The watcher was enabled, with this result. -/
  | enabled (result : Except PanelError Bool)
  | disabled
  /-- The flag alone was set or cleared. -/
  | flagged (enabled : Bool)

/-- A switching, and the number of ticks of the watcher's clock until then. -/
structure Switch where
  switching : Switching
  ticks : Nat

/-- The watcher of pins. Its clock runs passes only while the watcher is enabled. -/
structure PinWatcher (L : Type) where
  list : List Watch := []
  /-- The number of registrations so far. -/
  registrations : Nat := 0
  bus : Bus L := {}
  enabled : Bool := false
  clock : Clock Unit := .ofPeriod Clock.defaultPeriod
  /-- How it has been switched so far. As with the history, nothing depends on it. -/
  switches : List Switch := []

/-- The watcher of the machine's status, with the last snapshot it got. -/
structure StatusWatcher (L : Type) where
  source : StatusSource := .cell
  cached : Option Snapshot := none
  bus : Bus L := {}
  policy : HomingPolicy := .countMatch
  clock : Clock Unit := .ofPeriod Clock.defaultPeriod

/-- The driver, whose ticks update the status, the pins and the elements. -/
structure TickDriver where
  hasStatus : Bool := true
  config : WatchConfig := {}
  forest : Forest := {}
  clock : Clock Unit := .ofPeriod Clock.defaultPeriod

/-- A panel. -/
structure Panel (L μ : Type) where
  store : PinStore := {}
  pins : PinWatcher L := {}
  cell : SnapshotCell := {}
  status : StatusWatcher L := {}
  driver : TickDriver := {}
  binder : Binder := {}
  free : Bus L := {}
  now : Nanos := 0
  /-- The notes taken so far. -/
  journal : Array Note := #[]
  /-- What has happened so far. -/
  history : Array (Happening L) := #[]
  /-- What the listeners remember. -/
  memory : μ

/-- What calling a listener with a notice does to the panel. -/
abbrev Reaction (L μ : Type) := L → Notice → Panel L μ → Completion × Panel L μ

namespace Panel

variable {L μ : Type}

/-- Takes a note. -/
def note (p : Panel L μ) (n : Note) : Panel L μ :=
  { p with journal := p.journal.push n }

/-- Takes several notes. -/
def noteAll (p : Panel L μ) (notes : List Note) : Panel L μ :=
  { p with journal := p.journal ++ notes.toArray }

/-- Adds to the history. -/
def record (p : Panel L μ) (h : Happening L) : Panel L μ :=
  { p with history := p.history.push h }

/-! ## Buses -/

/-- The bus of a channel. -/
def bus (p : Panel L μ) : Channel → Bus L
  | .status => p.status.bus
  | .pins => p.pins.bus
  | .free => p.free

/-- Replaces the bus of a channel. -/
def setBus (p : Panel L μ) (channel : Channel) (bus : Bus L) : Panel L μ :=
  match channel with
  | .status => { p with status := { p.status with bus } }
  | .pins => { p with pins := { p.pins with bus } }
  | .free => { p with free := bus }

@[simp] theorem bus_setBus_self (p : Panel L μ) (channel : Channel) (bus : Bus L) :
    (p.setBus channel bus).bus channel = bus := by
  cases channel <;> rfl

theorem bus_setBus_other (p : Panel L μ) {channel other : Channel} (hne : other ≠ channel)
    (bus : Bus L) : (p.setBus channel bus).bus other = p.bus other := by
  cases channel <;> cases other <;> first | rfl | exact absurd rfl hne

/-- Subscribes a listener. -/
def subscribe (p : Panel L μ) (channel : Channel) (filter : Filter) (listener : L) :
    Nat × Panel L μ :=
  let (id, bus) := (p.bus channel).subscribe filter listener
  let p := (p.setBus channel bus).record (.subscribed channel ⟨id, filter, listener⟩)
  (id, p.note (.subscriptionAdded id filter))

/-- Removes a subscription. -/
def unsubscribe (p : Panel L μ) (channel : Channel) (id : Nat) : Bool × Panel L μ :=
  let (removed, bus) := (p.bus channel).unsubscribe id
  let p := (p.setBus channel bus).record (.unsubscribed channel id)
  (removed, if removed then p.note (.subscriptionRemoved id) else p)

/-- Removes all subscriptions of a channel. -/
def clear (p : Panel L μ) (channel : Channel) : Panel L μ :=
  (p.setBus channel (p.bus channel).clear).record (.cleared channel)

/-- Calls a subscriber in the course of an emission. -/
def call (react : Reaction L μ) (emission : Nat) (notice : Notice) (subscriber : Subscription L)
    (p : Panel L μ) : Completion × Panel L μ :=
  let p := p.record (.call emission subscriber notice)
  let (completion, p) := react subscriber.listener notice p
  (completion, p.record (.callEnd emission subscriber completion))

/-- Calls the recipients of an emission, and ends it with the number of those
that returned. A panic is noted. -/
def serve (react : Reaction L μ) (emission : Nat) (name : String) (notice : Notice)
    (recipients : List (Subscription L)) (p : Panel L μ) : Nat × Panel L μ :=
  let (delivered, p) := Bus.deliver (call react emission notice)
    (fun message p => p.note (.listenerPanicked name message)) recipients p
  (delivered, p.record (.emissionEnd emission delivered))

/-- Emits a notice under a name to the listeners that are subscribed now, and
counts those that returned. -/
def emit (react : Reaction L μ) (cause : Cause) (channel : Channel) (name : String)
    (notice : Notice) (p : Panel L μ) : Nat × Panel L μ :=
  let emission := p.history.size
  let recipients := (p.bus channel).recipients name
  (p.record (.emission cause channel name notice)).serve react emission name notice recipients

/-- Emits a list of notices one after the other. -/
def emitAll (react : Reaction L μ) (cause : Cause) (channel : Channel)
    (notices : List (String × Notice)) (p : Panel L μ) : Panel L μ :=
  notices.foldl (fun p n => (p.emit react cause channel n.1 n.2).2) p

/-! ## Clocks -/

/-- The clocks of a panel, by what they keep going. -/
inductive Timekeeper where
  | pins
  | status
  | driver
  deriving DecidableEq, Repr

/-- All clocks. -/
def timekeepers : List Timekeeper := [.pins, .status, .driver]

/-- A clock of the panel. -/
def clock (p : Panel L μ) : Timekeeper → Clock Unit
  | .pins => p.pins.clock
  | .status => p.status.clock
  | .driver => p.driver.clock

/-- Replaces a clock. -/
def setClock (p : Panel L μ) (t : Timekeeper) (clock : Clock Unit) : Panel L μ :=
  match t with
  | .pins => { p with pins := { p.pins with clock } }
  | .status => { p with status := { p.status with clock } }
  | .driver => { p with driver := { p.driver with clock } }

@[simp] theorem clock_setClock_self (p : Panel L μ) (t : Timekeeper) (c : Clock Unit) :
    (p.setClock t c).clock t = c := by
  cases t <;> rfl

theorem clock_setClock_other (p : Panel L μ) {t other : Timekeeper} (hne : other ≠ t)
    (c : Clock Unit) : (p.setClock t c).clock other = p.clock other := by
  cases t <;> cases other <;> first | rfl | exact absurd rfl hne

/-- Starts a clock. Without anything that drives clocks this fails, whatever
the clock is doing. -/
def startClock (p : Panel L μ) (t : Timekeeper) (driven : Bool) :
    Except PanelError Bool × Panel L μ :=
  if !driven then (.error .noRuntime, p)
  else
    let (started, clock) := (p.clock t).start p.now ()
    let p := p.setClock t clock
    (.ok started, if started then p.note (.clockStarted clock.period.toMillis) else p)

/-- Stops a clock. -/
def stopClock (p : Panel L μ) (t : Timekeeper) : Bool × Panel L μ :=
  let (stopped, clock) := (p.clock t).stop
  let p := p.setClock t clock
  (stopped, if stopped then p.note .clockStopped else p)

end Panel

end MachinePanel
