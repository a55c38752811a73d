/-
Adding elements to a panel, and acting on them.
-/
import MachinePanel.Panel.Ticks

namespace MachinePanel.Panel

variable {L μ : Type}

/-- What the panel's binder works on. -/
def binding (p : Panel L μ) : Binding :=
  { store := p.store, binder := p.binder }

/-- Takes the work of the binder over. -/
def adopt (p : Panel L μ) (b : Binding) : Panel L μ :=
  { p with store := b.store, binder := b.binder }.noteAll b.notes

/-- Binds one pin. -/
def bindPin (p : Panel L μ) (pin : Handle) : Except PinError Unit × Panel L μ :=
  match p.binding.bindPin pin with
  | .ok b => (.ok (), p.adopt b)
  | .error e => (.error e, p)

/-- Makes an element for a tag, with its pins. -/
def buildElement (p : Panel L μ) (tag : String) (props : Props) :
    Except PanelError Element × Panel L μ :=
  let (result, b) := p.binding.build tag props p.now
  (result, p.adopt b)

/-- Puts an element into the forest. -/
def attachElement (p : Panel L μ) (parent : Option Nat) (element : Element) :
    Except PanelError Nat × Panel L μ :=
  match p.driver.forest.attach parent element with
  | .ok (id, forest) => (.ok id, { p with driver := { p.driver with forest } })
  | .error e => (.error e, p)

/-- Makes an element and then attaches it; its pins stay when there is no such parent. -/
def addBuilt (p : Panel L μ) (parent : Option Nat) (tag : String) (props : Props) :
    Except PanelError Nat × Panel L μ :=
  match p.buildElement tag props with
  | (.ok element, p) => p.attachElement parent element
  | (.error e, p) => (.error e, p)

/-- Adds an element; the parent is looked up before anything is made. -/
def addElement (p : Panel L μ) (parent : Option Nat) (tag : String) (props : Props) :
    Except PanelError Nat × Panel L μ :=
  match parent with
  | some id =>
    if p.driver.forest.hasParent (some id) then p.addBuilt parent tag props
    else (.error (.noSuchElement id), p)
  | none => p.addBuilt none tag props

/-- A user acts on an element so many times. Gives nothing when there is no
such element or it takes no such action. -/
def actOn (p : Panel L μ) (id : Nat) (action : UserAction) (times : Nat) :
    Option (Except ValueError Unit) × Panel L μ :=
  match (p.driver.forest.element? id).bind (Element.actTimes action times ·) with
  | none => (none, p)
  | some (.error e) => (some (.error e), p)
  | some (.ok element) =>
    let forest := p.driver.forest.setElement id element
    (some (.ok ()), { p with driver := { p.driver with forest } })

end MachinePanel.Panel
