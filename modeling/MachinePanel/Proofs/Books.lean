/-
What a panel does not go by. It makes entries in its books, the history and the
journal, it keeps the memory of the listeners, and it goes by the watch list only
when it makes a pass over it or changes it. All else that it does is the same
whatever these are (`Unseen`).
-/
import MachinePanel.Proofs.History

namespace MachinePanel.Panel

variable {L μ : Type}

/-- The panel with empty books. -/
def bare (p : Panel L μ) : Panel L μ :=
  { p with history := #[], journal := #[] }

/-- The panel with empty books, another watch list and another memory. -/
def guise (list : List Watch → List Watch) (memory : μ → μ) (p : Panel L μ) : Panel L μ :=
  { p.bare with
    pins := { p.pins with list := list p.pins.list }
    memory := memory p.memory }

section

variable (list : List Watch → List Watch) (memory : μ → μ) (p : Panel L μ)

@[simp] theorem bare_guise : (p.guise list memory).bare = p.guise list memory := rfl
@[simp] theorem store_guise : (p.guise list memory).store = p.store := rfl
@[simp] theorem enabled_guise : (p.guise list memory).pins.enabled = p.pins.enabled := rfl
@[simp] theorem driver_guise : (p.guise list memory).driver = p.driver := rfl
@[simp] theorem now_guise : (p.guise list memory).now = p.now := rfl
@[simp] theorem binding_guise : (p.guise list memory).binding = p.binding := rfl

@[simp] theorem bus_guise (channel : Channel) :
    (p.guise list memory).bus channel = p.bus channel := by
  cases channel <;> rfl

@[simp] theorem clock_guise (t : Timekeeper) : (p.guise list memory).clock t = p.clock t := by
  cases t <;> rfl

theorem nextWake?_guise : (p.guise list memory).nextWake? = p.nextWake? := by
  simp only [nextWake?, clock_guise]

end

/-- What this does to a panel does not depend on the books. -/
def Unread (f : Panel L μ → Panel L μ) : Prop :=
  ∀ p, (f p.bare).bare = (f p).bare

/-- What this does to a panel depends neither on the books nor on the watch list and
what the listeners remember, and it leaves these two alone. -/
def Unseen (f : Panel L μ → Panel L μ) : Prop :=
  ∀ list memory p, (f (p.guise list memory)).bare = (f p).guise list memory

theorem Unread.bare_eq {f : Panel L μ → Panel L μ} (h : Unread f) {p q : Panel L μ}
    (hpq : q.bare = p.bare) : (f q).bare = (f p).bare := by
  rw [← h q, hpq, h p]

theorem Unseen.unread {f : Panel L μ → Panel L μ} (h : Unseen f) : Unread f :=
  h id id

theorem Unseen.guise_eq {f : Panel L μ → Panel L μ} (h : Unseen f) {p q : Panel L μ}
    {list : List Watch → List Watch} {memory : μ → μ} (hpq : q.bare = p.guise list memory) :
    (f q).bare = (f p).guise list memory := by
  rw [← h.unread q, hpq]
  exact h list memory p

theorem unseen_setClock (t : Timekeeper) (c : Clock Unit) :
    Unseen (fun p : Panel L μ => p.setClock t c) := by
  intro list memory p
  cases t <;> rfl

theorem unseen_keepStore (result : PinStore → Except PinError PinStore) :
    Unseen (fun p : Panel L μ => Operation.keepStore p (result p.store)) := by
  intro list memory p
  simp only [store_guise]
  cases result p.store <;> rfl

theorem unseen_createPin (pin : Handle) : Unseen (fun p : Panel L μ => (p.createPin pin).2) := by
  intro list memory p
  simp only [createPin, store_guise]
  cases p.store.create pin with
  | error e => rfl
  | ok store => by_cases hnew : p.store.contains pin.name = true <;> simp [hnew] <;> rfl

theorem unseen_bindPin (pin : Handle) : Unseen (fun p : Panel L μ => (p.bindPin pin).2) := by
  intro list memory p
  simp only [bindPin, binding_guise]
  cases p.binding.bindPin pin <;> rfl

theorem unseen_attachElement (parent : Option Nat) (element : Element) :
    Unseen (fun p : Panel L μ => (p.attachElement parent element).2) := by
  intro list memory p
  simp only [attachElement, driver_guise]
  cases p.driver.forest.attach parent element <;> rfl

theorem unseen_addBuilt (parent : Option Nat) (tag : String) (props : Props) :
    Unseen (fun p : Panel L μ => (p.addBuilt parent tag props).2) := by
  intro list memory p
  simp only [addBuilt, buildElement, binding_guise, now_guise]
  cases p.binding.build tag props p.now with
  | mk result b =>
    cases result with
    | error e => rfl
    | ok element =>
      have hadopt : ((p.guise list memory).adopt b).bare =
          (p.adopt b).guise list memory := rfl
      exact (unseen_attachElement parent element).guise_eq hadopt

theorem unseen_addElement (parent : Option Nat) (tag : String) (props : Props) :
    Unseen (fun p : Panel L μ => (p.addElement parent tag props).2) := by
  intro list memory p
  have hbuilt := fun parent => unseen_addBuilt parent tag props list memory p
  cases parent with
  | none => exact hbuilt none
  | some id =>
    by_cases hid : p.driver.forest.hasParent (some id) = true
    · simpa [addElement, hid] using hbuilt (some id)
    · simp [addElement, hid]

theorem unseen_actOn (id : Nat) (action : UserAction) (times : Nat) :
    Unseen (fun p : Panel L μ => (p.actOn id action times).2) := by
  intro list memory p
  simp only [actOn, driver_guise]
  cases (p.driver.forest.element? id).bind (Element.actTimes action times) with
  | none => rfl
  | some result => cases result <;> rfl

theorem unseen_startClock (t : Timekeeper) (driven : Bool) :
    Unseen (fun p : Panel L μ => (p.startClock t driven).2) := by
  intro list memory p
  cases driven with
  | false => rfl
  | true =>
    simp only [startClock, clock_guise, now_guise]
    cases (p.clock t).start p.now () with
    | mk started clock => cases started <;> exact unseen_setClock t clock list memory p

theorem unseen_stopClock (t : Timekeeper) : Unseen (fun p : Panel L μ => (p.stopClock t).2) := by
  intro list memory p
  simp only [stopClock, clock_guise]
  cases (p.clock t).stop with
  | mk stopped clock => cases stopped <;> exact unseen_setClock t clock list memory p

theorem unseen_startDriver (driven : Bool) :
    Unseen (fun p : Panel L μ => (p.startDriver driven).2) := by
  intro list memory p
  cases driven with
  | false => rfl
  | true =>
    simp only [startDriver, startClock, clock_guise, now_guise]
    cases (p.clock .driver).start p.now () with
    | mk started clock => cases started <;> rfl

theorem unseen_enablePins (driven : Bool) :
    Unseen (fun p : Panel L μ => (p.enablePins driven).2) := by
  intro list memory p
  cases driven with
  | false =>
    by_cases henabled : p.pins.enabled = true <;>
      simp [enablePins, startClock, henabled] <;> rfl
  | true =>
    have hclock : ∀ q : Panel L μ, (q.markEnabled true).clock .pins = q.clock .pins := fun _ => rfl
    have hnow : ∀ q : Panel L μ, (q.markEnabled true).now = q.now := fun _ => rfl
    simp only [enablePins, startClock, hclock, hnow, clock_guise, now_guise]
    cases (p.clock .pins).start p.now () with
    | mk started clock => cases started <;> rfl

theorem unseen_logSwitch (switching : Switching) :
    Unseen (fun p : Panel L μ => p.logSwitch switching) :=
  fun _ _ _ => rfl

theorem unseen_disablePins : Unseen (fun p : Panel L μ => p.disablePins) := by
  intro list memory p
  have hmark : ((p.guise list memory).markEnabled false).bare =
      (p.markEnabled false).guise list memory := rfl
  have hstop := (unseen_stopClock .pins).guise_eq hmark
  exact (unseen_logSwitch .disabled).guise_eq hstop

theorem unseen_setPinsEnabled (enabled : Bool) :
    Unseen (fun p : Panel L μ => p.setPinsEnabled enabled) := by
  intro list memory p
  by_cases hchange : (p.pins.enabled != enabled) = true <;> simp [setPinsEnabled, hchange] <;> rfl

theorem unseen_subscribe (channel : Channel) (filter : Filter) (listener : L) :
    Unseen (fun p : Panel L μ => (p.subscribe channel filter listener).2) := by
  intro list memory p
  simp only [subscribe, bus_guise]
  cases channel <;> rfl

theorem unseen_unsubscribe (channel : Channel) (id : Nat) :
    Unseen (fun p : Panel L μ => (p.unsubscribe channel id).2) := by
  intro list memory p
  simp only [unsubscribe, bus_guise]
  cases channel <;> split <;> rfl

theorem unseen_clear (channel : Channel) : Unseen (fun p : Panel L μ => p.clear channel) := by
  intro list memory p
  simp only [clear, bus_guise]
  cases channel <;> rfl

/-- **What is quiet does not go by the books**, nor by the watch list and the memory of the
listeners. -/
theorem unseen_perform {react : Reaction L μ} {op : Operation L μ} (hop : op.isQuiet = true) :
    Unseen (op.perform react) := by
  cases op with
  | createPin pin => exact unseen_createPin pin
  | writePin name value => exact unseen_keepStore (·.write name value)
  | drivePin name value => exact unseen_keepStore (·.drive name value)
  | enablePins driven => exact unseen_enablePins driven
  | disablePins => exact unseen_disablePins
  | setPinsEnabled enabled => exact unseen_setPinsEnabled enabled
  | startStatus driven => exact unseen_startClock .status driven
  | stopStatus => exact unseen_stopClock .status
  | startDriver driven => exact unseen_startDriver driven
  | stopDriver => exact unseen_stopClock .driver
  | bindPin pin => exact unseen_bindPin pin
  | addElement parent tag props => exact unseen_addElement parent tag props
  | addBuilt parent tag props => exact unseen_addBuilt parent tag props
  | actOn id action times => exact unseen_actOn id action times
  | removePin | publish | editSnapshot | failSource | setPolicy | freshBinder | takeName
    | takeCreated | updateElements => exact fun _ _ _ => rfl
  | register | newPin | unregister | pollPins | updatePins | updateStatus | requestReload
    | subscribe | unsubscribe | clear | emit | tick | remember => cases hop

end MachinePanel.Panel
