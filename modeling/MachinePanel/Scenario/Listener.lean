/-
Listeners of a scenario. A listener writes down what it sees at every call,
and on its first calls carries out its actions, writing down their answers.
How often each listener was called, and what they wrote, is their common
memory; the count outlives the subscription.
-/
import MachinePanel.Scenario.Command

namespace MachinePanel.Scenario

/-- What a listener sees. -/
inductive Sight where
  | notice (n : Notice)
  | joints (list : List Nat)
  | file (path : Option String)
  | number (n : Int32)
  | name (s : String)
  deriving DecidableEq, Repr

/-- What a topic shows of a notice; an event of another kind shows nothing. -/
def Topic.sight? (topic : Topic) (n : Notice) : Option Sight :=
  match topic, n with
  | notices _, n => some (.notice n)
  | homed, .status (.homed joints) => some (.joints joints)
  | notAllHomed, .status (.notAllHomed joints) => some (.joints joints)
  | fileLoaded, .status (.fileLoaded path) => some (.file path)
  | lineChanged, .status (.lineChanged n) => some (.number n)
  | toolChanged, .status (.toolChanged n) => some (.number n)
  | valueChanged _, .pin e => some (.name e.pin)
  | _, _ => none

/-- A listener, with a number that tells it from all others. -/
structure Listener where
  serial : Nat
  label : String
  topic : Topic
  limit : Nat
  actions : List Command

/-- What a listener writes down. -/
inductive Entry where
  | got (label : String) (sight : Sight)
  | did (label : String) (command : Command) (answer : Answer)

/-- What the listeners remember: how often each was called, and what they wrote. -/
structure Memory where
  calls : Array Nat := #[]
  entries : Array Entry := #[]

/-- The panel of a scenario. -/
abbrev Stage := Panel Listener Memory

/-- What carrying out a command leads to: an answer or a panic. -/
inductive Outcome where
  | answer (a : Answer)
  | panic (message : Option String)

namespace Stage

/-- Writes an entry down. -/
def write (s : Stage) (e : Entry) : Stage :=
  { s with memory := { s.memory with entries := s.memory.entries.push e } }

/-- How often a listener was called. -/
def callsOf (s : Stage) (serial : Nat) : Nat :=
  s.memory.calls.getD serial 0

/-- Counts a call of a listener. -/
def countCall (s : Stage) (serial : Nat) : Stage :=
  { s with memory := { s.memory with calls := s.memory.calls.modify serial (· + 1) } }

/-- Subscribes a listener, which gets the next free number. -/
def subscribe (s : Stage) (channel : Channel) (label : String) (topic : Topic) (limit : Nat)
    (actions : List Command) : Nat × Stage :=
  let listener : Listener := ⟨s.memory.calls.size, label, topic, limit, actions⟩
  let s := { s with memory := { s.memory with calls := s.memory.calls.push 0 } }
  Panel.subscribe s channel topic.filter listener

end Stage

/-- Carries out the actions of a listener, up to a panic. -/
def carryOut (perform : Command → Stage → Outcome × Stage) (label : String) :
    List Command → Stage → Completion × Stage
  | [], s => (.returned, s)
  | c :: cs, s =>
    match perform c s with
    | (.answer a, s) => carryOut perform label cs (Stage.write s (.did label c a))
    | (.panic message, s) => (.panicked message, s)

/-- One call of a listener. -/
def respond (perform : Command → Stage → Outcome × Stage) : Reaction Listener Memory :=
  fun listener notice s =>
    match listener.topic.sight? notice with
    | none => (.returned, s)
    | some sight =>
      let earlier := Stage.callsOf s listener.serial
      let s := Stage.write (Stage.countCall s listener.serial) (.got listener.label sight)
      if earlier < listener.limit then carryOut perform listener.label listener.actions s
      else (.returned, s)

end MachinePanel.Scenario
