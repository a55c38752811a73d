/-
An event bus: a list of subscriptions, each to one name or to all, and
emission to those that match. Listeners are values of any type; what calling
one does is a parameter of the emission, so a listener may act on the very
state that holds the bus. Two rules make that safe:

* who receives an emission is settled when it starts, so subscribing and
  unsubscribing take effect with the next one;
* a listener that panics is passed over, and the others are called all the same.
-/
import MachinePanel.Text.Quoted

namespace MachinePanel

/-- Which names a subscription listens to. -/
inductive Filter where
  | named (name : String)
  | any
  deriving DecidableEq, Repr

/-- The name passes the filter. -/
def Filter.accepts : Filter → String → Bool
  | named n, name => n == name
  | any, _ => true

/-- A listener under its number. -/
structure Subscription (L : Type) where
  id : Nat
  filter : Filter
  listener : L

/-- The subscriptions in the order they were made, and the next free number. -/
structure Bus (L : Type) where
  nextId : Nat := 1
  subscriptions : List (Subscription L) := []

/-- How a call of a listener ends; a panic may carry a message. -/
inductive Completion where
  | returned
  | panicked (message : Option String)
  deriving DecidableEq, Repr

namespace Bus

variable {L : Type}

/-- Adds a subscription under a number never used before. -/
def subscribe (bus : Bus L) (filter : Filter) (listener : L) : Nat × Bus L :=
  (bus.nextId,
    { nextId := bus.nextId + 1
      subscriptions := bus.subscriptions ++ [⟨bus.nextId, filter, listener⟩] })

/-- Removes a subscription, and says whether there was one. -/
def unsubscribe (bus : Bus L) (id : Nat) : Bool × Bus L :=
  (bus.subscriptions.any (·.id == id),
    { bus with subscriptions := bus.subscriptions.filter (·.id != id) })

/-- Removes all subscriptions. Their numbers stay used. -/
def clear (bus : Bus L) : Bus L :=
  { bus with subscriptions := [] }

/-- The number of subscriptions. -/
def size (bus : Bus L) : Nat :=
  bus.subscriptions.length

/-- The subscriptions an emission under a name reaches, in order. -/
def recipients (bus : Bus L) (name : String) : List (Subscription L) :=
  bus.subscriptions.filter (·.filter.accepts name)

/-- The number of subscriptions to a name. -/
def listenerCount (bus : Bus L) (name : String) : Nat :=
  bus.subscriptions.countP (·.filter.accepts name)

/-- Calls subscribers one after the other on a common state, and counts those
that returned. -/
def deliver {σ : Type} (call : Subscription L → σ → Completion × σ)
    (onPanic : Option String → σ → σ) : List (Subscription L) → σ → Nat × σ
  | [], s => (0, s)
  | l :: ls, s =>
    match call l s with
    | (.returned, s) =>
      let (n, s) := deliver call onPanic ls s
      (n + 1, s)
    | (.panicked message, s) => deliver call onPanic ls (onPanic message s)

theorem length_recipients (bus : Bus L) (name : String) :
    (bus.recipients name).length = bus.listenerCount name := by
  simp [recipients, listenerCount, List.countP_eq_length_filter]

/-- No more listeners return than there are. -/
theorem deliver_fst_le {σ : Type} (call : Subscription L → σ → Completion × σ)
    (onPanic : Option String → σ → σ) (ls : List (Subscription L)) (s : σ) :
    (deliver call onPanic ls s).1 ≤ ls.length := by
  induction ls generalizing s with
  | nil => simp [deliver]
  | cons l ls ih =>
    rw [deliver]
    split
    · rename_i s' _
      have := ih s'
      simp only [List.length_cons]
      omega
    · rename_i m s' _
      have := ih (onPanic m s')
      simp only [List.length_cons]
      omega

end Bus

/-- The text of a subscription number. -/
def subscriptionText (id : Nat) : String :=
  "Sub(" ++ toString id ++ ")"

/-- The description of a bus, which shows only how many subscriptions it has. -/
def busText (subscriptions : Nat) : String :=
  "EventBus \x7b subscriptions: " ++ toString subscriptions ++ ", .. \x7d"

/-- The description of a filter. -/
def Filter.text : Filter → String
  | named name => "Named(" ++ Text.quote name ++ ")"
  | any => "Any"

end MachinePanel
