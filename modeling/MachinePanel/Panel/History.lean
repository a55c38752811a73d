/-
The history of a panel: what happened on it, in order. Nothing a panel does
depends on its history; it is what can be said about a whole run. The number
of a happening is how many came before it. What belongs together refers to the
happening it began with: the emissions of an update to its poll, those of a
pass to its reading of the pins, and the calls of an emission to the emission.
-/
import MachinePanel.Bus
import MachinePanel.Machine.Event
import MachinePanel.Machine.Homing
import MachinePanel.Machine.Source
import MachinePanel.Pin.Record
import MachinePanel.Pin.WatchList

namespace MachinePanel

/-- What a bus carries to its listeners. -/
inductive Notice where
  | status (e : StatusEvent)
  | pin (e : PinEvent)
  | message (s : String)
  deriving DecidableEq, Repr

/-- The buses of a panel: two belong to its watchers, and one is free for any use. -/
inductive Channel where
  | status
  | pins
  | free
  deriving DecidableEq, Repr

/-- Why a notice is emitted. -/
inductive Cause where
  /-- Someone emits it on the bus. -/
  | request
  /-- The status watcher was asked to have displays reload. -/
  | reload
  /-- The status watcher makes an update, with the poll of this number. -/
  | update (poll : Nat)
  /-- The pin watcher makes the pass of this number. -/
  | pass (number : Nat)
  deriving DecidableEq, Repr

/-- Something that happened on a panel with listeners of type `L`. -/
inductive Happening (L : Type) where
  /-- The source of the status was polled, under the policy then in force. -/
  | polled (answer : Poll) (policy : HomingPolicy)
  /-- A pin was put on the watch list. -/
  | registered (serial : Nat) (pin : Handle)
  /-- All entries of a name were taken off the watch list. -/
  | unregistered (name : String)
  /-- A pass read the pins on the watch list. -/
  | pass (readings : List Reading)
  /-- A pass ended; so many pins had changed. -/
  | passEnd (pass changed : Nat)
  /-- An emission began. -/
  | emission (cause : Cause) (channel : Channel) (name : String) (notice : Notice)
  /-- An emission called a subscriber. -/
  | call (emission : Nat) (subscriber : Subscription L) (notice : Notice)
  /-- The call ended. -/
  | callEnd (emission : Nat) (subscriber : Subscription L) (completion : Completion)
  /-- An emission ended; so many listeners returned. -/
  | emissionEnd (emission delivered : Nat)
  /-- A subscription was made. -/
  | subscribed (channel : Channel) (subscriber : Subscription L)
  /-- A subscription was cancelled, if there was one of that number. -/
  | unsubscribed (channel : Channel) (id : Nat)
  /-- All subscriptions were cancelled. -/
  | cleared (channel : Channel)

end MachinePanel
