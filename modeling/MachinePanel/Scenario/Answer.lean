/-
The answers of a panel to the commands of a scenario.
-/
import MachinePanel.Panel.Elements

namespace MachinePanel.Scenario

/-- The answer to a command. -/
inductive Answer where
  /-- It was done, and there is nothing to tell. -/
  | done
  /-- What was asked for does not exist. -/
  | nothing
  | flag (b : Bool)
  | count (n : Nat)
  | text (s : String)
  | number (x : Float)
  | value (v : Value)
  | indices (list : List Nat)
  | names (list : List String)
  | handle (pin : Handle)
  | handles (pins : List Handle)
  | described (direction : Direction) (type : ScalarType)
  | slots (list : List (String × Slot))
  | list (answers : List Answer)
  | snapshot (s : Snapshot)
  | policy (p : HomingPolicy)
  | subscription (id : Nat)
  | busState (size count : Nat)
  | watcherClock (enabled : Bool) (ticks : Nat)
  | tick (report : TickReport)
  | updates (count : UpdateCount)
  | driverState (running : Bool) (ticks : Nat) (config : WatchConfig) (hasStatus : Bool)
      (watched : Nat)
  | elementId (id : Nat)
  | forest (f : Forest)
  | element (e : Element) (now : Nanos)
  | elements (list : List (Nat × Element)) (now : Nanos)
  | pinError (e : PinError)
  | sourceError (e : SourceError)
  | valueError (e : ValueError)
  | panelError (e : PanelError)
  /-- A text is no record of what it should be. -/
  | malformed

namespace Answer

variable {α : Type}

/-- The answer to an operation that may fail with a panel error. -/
def ofPanel (ok : α → Answer) : Except PanelError α → Answer
  | .ok a => ok a
  | .error e => .panelError e

/-- The answer to an operation that may fail with a pin error. -/
def ofPin (ok : α → Answer) : Except PinError α → Answer
  | .ok a => ok a
  | .error e => .pinError e

end Answer

end MachinePanel.Scenario
