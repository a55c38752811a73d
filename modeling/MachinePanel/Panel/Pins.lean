/-
Pins and their watcher. A pass reads all watched pins at once and only then
emits, so that what listeners do to the list or to the pins is seen by the
next pass.
-/
import MachinePanel.Panel.Basic

namespace MachinePanel.Panel

variable {L μ : Type}

/-- Makes a pin. -/
def createPin (p : Panel L μ) (pin : Handle) : Except PinError Unit × Panel L μ :=
  match p.store.create pin with
  | .error e => (.error e, p)
  | .ok store =>
    let isNew := !p.store.contains pin.name
    let p := { p with store }
    (.ok (), if isNew then p.note (.pinCreated pin) else p)

/-- Puts a pin on the watch list. -/
def register (p : Panel L μ) (pin : Handle) : Panel L μ :=
  let serial := p.pins.registrations
  let list := p.pins.list ++ [⟨serial, pin, none⟩]
  let p := { p with pins := { p.pins with list, registrations := serial + 1 } }
  (p.record (.registered serial pin)).note (.pinRegistered pin.name)

/-- Makes a pin and puts it on the watch list. -/
def newPin (p : Panel L μ) (pin : Handle) : Except PinError Unit × Panel L μ :=
  match p.createPin pin with
  | (.ok (), p) => (.ok (), p.register pin)
  | r => r

/-- Takes all entries of a name off the watch list, and says whether there were any. -/
def unregister (p : Panel L μ) (name : String) : Bool × Panel L μ :=
  let list := p.pins.list.filter (·.pin.name != name)
  (p.pins.list.any (·.pin.name == name),
    { p with pins := { p.pins with list } }.record (.unregistered name))

/-- Reads the watched pins, and drops those that fail from the list. -/
def readPins (p : Panel L μ) : WatchPass × Panel L μ :=
  let pass := WatchPass.run p.store p.pins.list
  let p := { p with pins := { p.pins with list := pass.kept } }.record (.pass pass.readings)
  (pass, p.noteAll (pass.dropped.map fun d => .pinDropped d.1.name d.2))

/-- The notices of changed pins. -/
def pinNotices (changed : List String) : List (String × Notice) :=
  changed.map fun name => (name, .pin ⟨name⟩)

/-- Emits an event for each changed pin of a pass, and ends the pass. -/
def finishPass (react : Reaction L μ) (number : Nat) (changed : List String) (p : Panel L μ) :
    Panel L μ :=
  (p.emitAll react (.pass number) .pins (pinNotices changed)).record
    (.passEnd number changed.length)

/-- One pass: reads the watched pins and emits an event for each change. Gives
the number of changes. -/
def pollPins (react : Reaction L μ) (p : Panel L μ) : Nat × Panel L μ :=
  let number := p.history.size
  let (pass, p) := p.readPins
  (pass.changed.length, p.finishPass react number pass.changed)

/-- A pass, if the watcher is enabled; says whether there was one. -/
def updatePins (react : Reaction L μ) (p : Panel L μ) : Bool × Panel L μ :=
  if p.pins.enabled then (true, (p.pollPins react).2) else (false, p)

/-- Sets the flag alone. -/
def markEnabled (p : Panel L μ) (enabled : Bool) : Panel L μ :=
  { p with pins := { p.pins with enabled } }

/-- Takes down how the watcher was switched. -/
def logSwitch (p : Panel L μ) (switching : Switching) : Panel L μ :=
  let switches := p.pins.switches ++ [⟨switching, p.pins.clock.ticks⟩]
  { p with pins := { p.pins with switches } }

/-- Enables the watcher and starts its clock. If that fails, a watcher that was
disabled stays disabled. -/
def enablePins (p : Panel L μ) (driven : Bool) : Except PanelError Bool × Panel L μ :=
  let wasEnabled := p.pins.enabled
  match (p.markEnabled true).startClock .pins driven with
  | (.ok started, p) => (.ok started, p.logSwitch (.enabled (.ok started)))
  | (.error e, p) =>
    let p := if wasEnabled then p else p.markEnabled false
    (.error e, p.logSwitch (.enabled (.error e)))

/-- Sets the flag and notes a change of it; the clock is left alone. -/
def setPinsEnabled (p : Panel L μ) (enabled : Bool) : Panel L μ :=
  let changed := p.pins.enabled != enabled
  let p := (p.markEnabled enabled).logSwitch (.flagged enabled)
  if changed then p.note (.watchingChanged enabled) else p

/-- Disables the watcher and stops its clock. -/
def disablePins (p : Panel L μ) : Panel L μ :=
  ((p.markEnabled false).stopClock .pins).2.logSwitch .disabled

end MachinePanel.Panel
