/-
The list of watched pins. A pass over the list reads every pin once, keeps the
pins that can be read, and finds those whose value is not the one seen at the
pass before; a pin on its first pass always counts as changed.
-/
import MachinePanel.Pin.Store

namespace MachinePanel

/-- A watched pin under the number of its registration, and the value seen at
the last pass. -/
structure Watch where
  serial : Nat
  pin : Handle
  last : Option Value := none

namespace Watch

/-- The value differs from the one seen before. -/
def isNews (w : Watch) (value : Value) : Bool :=
  match w.last with
  | none => true
  | some last => last != value

end Watch

/-- What a pass read for one entry of the list. -/
structure Reading where
  serial : Nat
  pin : Handle
  result : Except PinError Value

/-- What a pass over the watch list finds. -/
structure WatchPass where
  /-- Everything that was read, in the order of the list. -/
  readings : List Reading := []
  /-- The pins that stay, with the values just read. -/
  kept : List Watch := []
  /-- The names of the changed pins, in the order of the list. -/
  changed : List String := []
  /-- The pins that could not be read, and why. -/
  dropped : List (Handle × PinError) := []

namespace WatchPass

/-- Adds one pin in front of the pass over the rest. -/
def visit (store : PinStore) (w : Watch) (rest : WatchPass) : WatchPass :=
  let result := store.readAs w.pin
  let rest := { rest with readings := ⟨w.serial, w.pin, result⟩ :: rest.readings }
  match result with
  | .error e => { rest with dropped := (w.pin, e) :: rest.dropped }
  | .ok value =>
    if w.isNews value then
      { rest with
        kept := { w with last := some value } :: rest.kept
        changed := w.pin.name :: rest.changed }
    else { rest with kept := w :: rest.kept }

/-- The pass over a list. -/
def run (store : PinStore) (list : List Watch) : WatchPass :=
  list.foldr (visit store) {}

end WatchPass

end MachinePanel
