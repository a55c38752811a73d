/-
Runs of a panel. An operation is anything that can be asked of a panel by
whoever holds it; a run is a sequence of operations and stretches of time.

Listeners hold the panel too. Their conduct says what each of them does when
it is called: it carries out operations one after the other, going by what it
finds on the panel after each, and returns or panics in the end. Operations of
a listener can call listeners again; `Conduct.react` follows this to a given
depth, below which listeners do nothing, so that a run whose emissions nest
less deep is followed in full. Statements hold for every conduct and every depth.
-/
import MachinePanel.Panel.Elements
import MachinePanel.Panel.Setup

namespace MachinePanel

/-- What can be asked of a panel with listeners of type `L` and their memory of type `μ`. -/
inductive Operation (L μ : Type) where
  | createPin (pin : Handle)
  | writePin (name : String) (value : Value)
  | drivePin (name : String) (value : Value)
  | removePin (name : String)
  | register (pin : Handle)
  | newPin (pin : Handle)
  | unregister (name : String)
  | pollPins
  | updatePins
  | enablePins (driven : Bool)
  | disablePins
  | setPinsEnabled (enabled : Bool)
  | publish (s : Snapshot)
  | editSnapshot (edit : Snapshot → Snapshot)
  | failSource (reason : String)
  | updateStatus
  | requestReload
  | setPolicy (policy : HomingPolicy)
  | startStatus (driven : Bool)
  | stopStatus
  | subscribe (channel : Channel) (filter : Filter) (listener : L)
  | unsubscribe (channel : Channel) (id : Nat)
  | clear (channel : Channel)
  | emit (channel : Channel) (name : String) (notice : Notice)
  | tick
  | startDriver (driven : Bool)
  | stopDriver
  | freshBinder
  | takeName (given : Option String) (naming : Naming)
  | takeCreated
  | bindPin (pin : Handle)
  | addElement (parent : Option Nat) (tag : String) (props : Props)
  | addBuilt (parent : Option Nat) (tag : String) (props : Props)
  | updateElements
  | actOn (id : Nat) (action : UserAction) (times : Nat)
  /-- A listener changes what listeners remember. -/
  | remember (change : μ → μ)

namespace Operation

variable {L μ : Type}

/-- The panel with the store a successful operation on it gives. -/
def keepStore (p : Panel L μ) : Except PinError PinStore → Panel L μ
  | .ok store => { p with store }
  | .error _ => p

/-- Carries out an operation. -/
def perform (react : Reaction L μ) (op : Operation L μ) (p : Panel L μ) : Panel L μ :=
  match op with
  | createPin pin => (p.createPin pin).2
  | writePin name value => keepStore p (p.store.write name value)
  | drivePin name value => keepStore p (p.store.drive name value)
  | removePin name => { p with store := (p.store.remove name).2 }
  | register pin => p.register pin
  | newPin pin => (p.newPin pin).2
  | unregister name => (p.unregister name).2
  | pollPins => (p.pollPins react).2
  | updatePins => (p.updatePins react).2
  | enablePins driven => (p.enablePins driven).2
  | disablePins => p.disablePins
  | setPinsEnabled enabled => p.setPinsEnabled enabled
  | publish s => { p with cell := p.cell.set s }
  | editSnapshot edit => { p with cell := p.cell.modify edit }
  | failSource reason => { p with cell := p.cell.fail reason }
  | updateStatus => p.updateStatus react
  | requestReload => p.requestReload react
  | setPolicy policy => p.setPolicy policy
  | startStatus driven => (p.startClock .status driven).2
  | stopStatus => (p.stopClock .status).2
  | subscribe channel filter listener => (p.subscribe channel filter listener).2
  | unsubscribe channel id => (p.unsubscribe channel id).2
  | clear channel => p.clear channel
  | emit channel name notice => (p.emit react .request channel name notice).2
  | tick => (p.tick react).2
  | startDriver driven => (p.startDriver driven).2
  | stopDriver => (p.stopClock .driver).2
  | freshBinder => { p with binder := {} }
  | takeName given naming => { p with binder := (p.binder.baseName given naming).2 }
  | takeCreated => { p with binder := p.binder.takeCreated.2 }
  | bindPin pin => (p.bindPin pin).2
  | addElement parent tag props => (p.addElement parent tag props).2
  | addBuilt parent tag props => (p.addBuilt parent tag props).2
  | updateElements => p.updateElements.2
  | actOn id action times => (p.actOn id action times).2
  | remember change => { p with memory := change p.memory }

/-- On this panel the operation makes an update of the status. -/
def updatesStatus (p : Panel L μ) : Operation L μ → Bool
  | updateStatus => true
  | tick => p.driver.hasStatus
  | _ => false

end Operation

/-- A step of a run: an operation, or a stretch of time. -/
inductive Step (L μ : Type) where
  | operation (op : Operation L μ)
  | advance (ms : Nat)

/-- What a listener does in a call: operations, each chosen by what the panel has
become, until it returns or panics. -/
inductive Plan (L μ : Type) where
  | finish (completion : Completion)
  | perform (op : Operation L μ) (next : Panel L μ → Plan L μ)

/-- What each listener does when it is called with a notice. -/
abbrev Conduct (L μ : Type) := L → Notice → Panel L μ → Plan L μ

namespace Plan

variable {L μ : Type}

/-- Carries out a plan. -/
def carryOut (react : Reaction L μ) : Plan L μ → Panel L μ → Completion × Panel L μ
  | finish completion, p => (completion, p)
  | perform op next, p =>
    let p := op.perform react p
    (next p).carryOut react p

/-- All operations of a plan, whichever way it goes on, are of a kind; the kind may
depend on the panel they are carried out on. -/
def All (kind : Panel L μ → Operation L μ → Prop) : Plan L μ → Panel L μ → Prop
  | finish _, _ => True
  | perform op next, p => kind p op ∧ ∀ q, (next q).All kind q

variable {kind kind' : Panel L μ → Operation L μ → Prop} {plan : Plan L μ} {p : Panel L μ}

theorem All.imp (himp : ∀ p op, kind p op → kind' p op) (h : plan.All kind p) :
    plan.All kind' p := by
  induction plan generalizing p with
  | finish completion => trivial
  | perform op next ih => exact ⟨himp p op h.1, fun q => ih q (h.2 q)⟩

theorem all_of_forall (hkind : ∀ p op, kind p op) : plan.All kind p := by
  induction plan generalizing p with
  | finish completion => trivial
  | perform op next ih => exact ⟨hkind p op, fun q => ih q⟩

end Plan

namespace Panel

variable {L μ : Type}

/-- Takes a step. -/
def step (react : Reaction L μ) (p : Panel L μ) : Step L μ → Panel L μ
  | .operation op => op.perform react p
  | .advance ms => p.advance react ms

/-- Takes steps one after the other. -/
def run (react : Reaction L μ) (steps : List (Step L μ)) (p : Panel L μ) : Panel L μ :=
  steps.foldl (step react) p

end Panel

/-- How listeners of a conduct react, with emissions nested to a depth. -/
def Conduct.react {L μ : Type} (conduct : Conduct L μ) : Nat → Reaction L μ
  | 0 => fun _ _ p => (.returned, p)
  | depth + 1 => fun listener notice p => (conduct listener notice p).carryOut (conduct.react depth) p

end MachinePanel
