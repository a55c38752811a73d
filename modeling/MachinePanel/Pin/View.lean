/-
A view of the store for one round of updates. The first read of a name is
remembered and answers every later one, so that all elements of a round see
the same inputs; a write goes to the store and is remembered too. Names alone
are remembered, not types: a later read gets the value as it was seen.
-/
import MachinePanel.Pin.Store

namespace MachinePanel

/-- The store, and the values seen in this round. -/
structure PinView where
  store : PinStore
  seen : List (String × Value) := []

namespace PinView

/-- The value seen under a name. -/
def seen? (view : PinView) (name : String) : Option Value :=
  view.seen.lookup name

/-- Remembers a value. -/
def remember (view : PinView) (name : String) (value : Value) : PinView :=
  { view with seen := (name, value) :: view.seen }

/-- Reads a pin. A failed read is not remembered. -/
def read (view : PinView) (pin : Handle) : Except PinError (Value × PinView) :=
  match view.seen? pin.name with
  | some value => .ok (value, view)
  | none =>
    match view.store.readAs pin with
    | .ok value => .ok (value, view.remember pin.name value)
    | .error e => .error e

/-- Writes a pin. A failed write changes nothing. -/
def write (view : PinView) (pin : Handle) (value : Value) : Except PinError PinView :=
  match view.store.write pin.name value with
  | .ok store => .ok ({ view with store }.remember pin.name value)
  | .error e => .error e

/-- A write that succeeds has gone to the store, and is remembered. -/
theorem exists_of_write {view view' : PinView} {pin : Handle} {value : Value}
    (h : view.write pin value = .ok view') :
    ∃ store, view.store.write pin.name value = .ok store ∧
      view' = { view with store }.remember pin.name value := by
  unfold write at h
  split at h
  · next store hstore =>
    cases h
    exact ⟨store, hstore, rfl⟩
  · cases h

theorem seen?_remember_self (view : PinView) (name : String) (value : Value) :
    (view.remember name value).seen? name = some value := by
  simp [seen?, remember]

theorem seen?_remember_other (view : PinView) {name other : String} (hne : other ≠ name)
    (value : Value) : (view.remember name value).seen? other = view.seen? other := by
  have hb : (other == name) = false := by simpa using hne
  simp [seen?, remember, List.lookup_cons, hb]

end PinView

end MachinePanel
