/-
Descriptions of a panel's parts in one line.
-/
import MachinePanel.Panel.Basic

namespace MachinePanel

variable {L : Type}

/-- The description of a store, which shows only how many pins it has. -/
def PinStore.text (s : PinStore) : String :=
  "MemoryPinStore \x7b pins: " ++ toString s.size ++ " \x7d"

/-- The description of a pin watcher. -/
def PinWatcher.text (w : PinWatcher L) : String :=
  "PinWatcher \x7b pins: " ++ Text.quoteAll (w.list.map (·.pin.name)) ++ ", enabled: " ++
    toString w.enabled ++ ", events: " ++ busText w.bus.size ++ ", .. \x7d"

/-- The description of a status watcher. -/
def StatusWatcher.text (w : StatusWatcher L) : String :=
  "StatusWatcher \x7b policy: " ++ w.policy.label ++ ", cached: " ++ toString w.cached.isSome ++
    ", events: " ++ busText w.bus.size ++ ", clock: " ++ w.clock.text ++ ", .. \x7d"

/-- The description of a driver with its pin watcher. -/
def TickDriver.text (d : TickDriver) (pins : PinWatcher L) : String :=
  "TickDriver \x7b status: " ++ toString d.hasStatus ++ ", pins: " ++ pins.text ++ ", config: " ++
    d.config.text ++ ", clock: " ++ d.clock.text ++ ", .. \x7d"

end MachinePanel
