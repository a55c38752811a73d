/-
What operations leave alone. Whatever is asked of a panel, but for a few
operations meant for that, the watcher of pins keeps its flag, its clock and
the log of its switchings, and the store retains its pins: making an element
makes pins, and updates of elements write them (`Aside`). So a relation that holds along such changes and
along what listeners do holds along all operations but those few
(`Sideways.perform`).
-/
import MachinePanel.Proofs.Intact
import MachinePanel.Proofs.Requests

namespace MachinePanel

open PinStore (Retains)

/-! ## Updates of elements -/

theorem PinProgram.retains_run {α : Type} (program : PinProgram α) (view : PinView) :
    view.store.Retains (program.run view).view.store := by
  induction program generalizing view with
  | done element unknownImage => exact .refl _
  | read pin failed next ih =>
    simp only [PinProgram.run, PinView.reading]
    split
    · next value view' hread => exact PinView.store_of_read hread ▸ ih value view'
    · exact .refl _
  | write pin value failed next ih =>
    simp only [PinProgram.run, PinView.writing]
    split
    · next view' hwrite =>
      have hstore : view.store.Retains view'.store := by
        obtain ⟨store, hstore, rfl⟩ := PinView.exists_of_write hwrite
        exact PinStore.retains_write hstore
      exact hstore.trans (ih view')
    · exact .refl _

theorem Element.retains_update (e : Element) (now : Nanos) (view : PinView) :
    view.store.Retains (e.update now view).view.store := by
  rw [Element.update_eq_run]
  exact PinProgram.retains_run _ view

/-- A round of updates retains all pins. -/
theorem Forest.retains_update (f : Forest) (store : PinStore) (now : Nanos) :
    store.Retains (f.update store now).view.store := by
  have hround : ∀ (order : List Nat) (round : Round),
      round.view.store.Retains (order.foldl (Round.visit now) round).view.store := by
    intro order
    induction order with
    | nil => exact fun round => .refl _
    | cons id rest ih =>
      intro round
      have hvisit : round.view.store.Retains (Round.visit now round id).view.store := by
        unfold Round.visit
        split
        · exact .refl _
        · exact Element.retains_update _ now _
      exact hvisit.trans (ih _)
  exact hround f.traversal ⟨f, ⟨store, []⟩, {}, []⟩

/-! ## Making elements -/

/-- The relation holds along the making of pins. -/
structure PinStore.Made (S : PinStore → PinStore → Prop) : Prop where
  refl : ∀ store, S store store
  trans : ∀ {s₁ s₂ s₃}, S s₁ s₂ → S s₂ s₃ → S s₁ s₃
  create : ∀ {store pin store'}, store.create pin = .ok store' → S store store'

theorem PinStore.made_retains : PinStore.Made PinStore.Retains :=
  ⟨.refl, .trans, PinStore.retains_create⟩

namespace PinStore.Made

variable {S : PinStore → PinStore → Prop}

theorem bindPin (h : Made S) {b b' : Binding} {pin : Handle} (hbind : b.bindPin pin = .ok b') :
    S b.store b'.store := by
  unfold Binding.bindPin at hbind
  split at hbind
  · cases hbind
  · next store hcreate =>
    cases hbind
    exact h.create hcreate

theorem bindPins (h : Made S) (pins : List Handle) (b : Binding) :
    S b.store (b.bindPins pins).2.store := by
  induction pins generalizing b with
  | nil => exact h.refl _
  | cons pin rest ih =>
    rw [Binding.bindPins]
    split
    · exact h.refl _
    · next b' hb => exact h.trans (h.bindPin hb) (ih b')

/-- Making an element makes pins and no more, whether or not it succeeds. -/
theorem build (h : Made S) (b : Binding) (tag : String) (props : Props) (now : Nanos) :
    S b.store (b.build tag props now).2.store := by
  unfold Binding.build
  split
  · exact h.refl _
  · next t _ =>
    split
    · exact h.refl _
    · next design _ =>
      obtain ⟨binder, hname⟩ := Panel.exists_takeName b props design.naming
      have hpins := h.bindPins (t.blueprint props (b.takeName props design.naming).1)
        (b.takeName props design.naming).2
      rw [hname] at hpins
      simp only [Binding.realize, hname]
      split
      · next heq =>
        rw [heq] at hpins
        exact hpins
      · next heq =>
        rw [heq] at hpins
        exact hpins

end PinStore.Made

namespace Panel

variable {L μ : Type} {p q r : Panel L μ} {react : Reaction L μ}
  {R : Panel L μ → Panel L μ → Prop}

/-! ## Changes aside -/

/-- From `p` to `q` the watcher of pins keeps its flag, its clock and the log of its
switchings, and the store retains its pins. -/
structure Aside (p q : Panel L μ) : Prop where
  enabled : q.pins.enabled = p.pins.enabled
  clock : q.pins.clock = p.pins.clock
  switches : q.pins.switches = p.pins.switches
  store : p.store.Retains q.store

theorem Aside.refl (p : Panel L μ) : Aside p p := ⟨rfl, rfl, rfl, .refl _⟩

theorem Aside.trans (h : Aside p q) (h' : Aside q r) : Aside p r :=
  ⟨h'.enabled.trans h.enabled, h'.clock.trans h.clock, h'.switches.trans h.switches,
    h.store.trans h'.store⟩

theorem aside_record (p : Panel L μ) (x : Happening L) : Aside p (p.record x) :=
  ⟨rfl, rfl, rfl, .refl _⟩

theorem aside_note (p : Panel L μ) (n : Note) : Aside p (p.note n) :=
  ⟨rfl, rfl, rfl, .refl _⟩

theorem aside_setBus (p : Panel L μ) (channel : Channel) (bus : Bus L) :
    Aside p (p.setBus channel bus) := by
  cases channel <;> exact ⟨rfl, rfl, rfl, .refl _⟩

theorem aside_setClock (p : Panel L μ) {t : Timekeeper} (ht : t ≠ .pins) (c : Clock Unit) :
    Aside p (p.setClock t c) := by
  cases t with
  | pins => exact absurd rfl ht
  | status | driver => exact ⟨rfl, rfl, rfl, .refl _⟩

theorem aside_store {store : PinStore} (h : p.store.Retains store) :
    Aside p { p with store } :=
  ⟨rfl, rfl, rfl, h⟩

theorem aside_createPin (p : Panel L μ) (pin : Handle) : Aside p (p.createPin pin).2 := by
  unfold createPin
  split
  · exact .refl p
  · next store hcreate =>
    have hstore := aside_store (PinStore.retains_create hcreate)
    simp only
    split
    · exact hstore.trans (aside_note _ _)
    · exact hstore

theorem aside_register (p : Panel L μ) (pin : Handle) : Aside p (p.register pin) :=
  ⟨rfl, rfl, rfl, .refl _⟩

theorem aside_newPin (p : Panel L μ) (pin : Handle) : Aside p (p.newPin pin).2 := by
  have hcreate := aside_createPin p pin
  unfold newPin
  split
  · next q heq =>
    rw [heq] at hcreate
    exact hcreate.trans (aside_register q pin)
  · exact hcreate

theorem aside_unregister (p : Panel L μ) (name : String) : Aside p (p.unregister name).2 :=
  ⟨rfl, rfl, rfl, .refl _⟩

theorem aside_readPins (p : Panel L μ) : Aside p p.readPins.2 := ⟨rfl, rfl, rfl, .refl _⟩

theorem aside_pollSource (p : Panel L μ) : Aside p p.pollSource.2 := ⟨rfl, rfl, rfl, .refl _⟩

theorem aside_subscribe (p : Panel L μ) (channel : Channel) (filter : Filter) (listener : L) :
    Aside p (p.subscribe channel filter listener).2 :=
  (aside_setBus p channel _).trans ⟨rfl, rfl, rfl, .refl _⟩

theorem aside_unsubscribe (p : Panel L μ) (channel : Channel) (id : Nat) :
    Aside p (p.unsubscribe channel id).2 := by
  have hbus := aside_setBus p channel ((p.bus channel).unsubscribe id).2
  simp only [unsubscribe]
  split <;> exact hbus.trans ⟨rfl, rfl, rfl, .refl _⟩

theorem aside_clear (p : Panel L μ) (channel : Channel) : Aside p (p.clear channel) :=
  (aside_setBus p channel _).trans ⟨rfl, rfl, rfl, .refl _⟩

theorem aside_startClock (p : Panel L μ) {t : Timekeeper} (ht : t ≠ .pins) (driven : Bool) :
    Aside p (p.startClock t driven).2 := by
  unfold startClock
  split
  · exact .refl p
  · have hclock := aside_setClock p ht ((p.clock t).start p.now ()).2
    simp only
    split
    · exact hclock.trans (aside_note _ _)
    · exact hclock

theorem aside_stopClock (p : Panel L μ) {t : Timekeeper} (ht : t ≠ .pins) :
    Aside p (p.stopClock t).2 := by
  have hclock := aside_setClock p ht (p.clock t).stop.2
  unfold stopClock
  simp only
  split
  · exact hclock.trans (aside_note _ _)
  · exact hclock

theorem aside_startDriver (p : Panel L μ) (driven : Bool) :
    Aside p (p.startDriver driven).2 := by
  have hclock := aside_startClock p (t := .driver) (by decide) driven
  unfold startDriver
  split
  · next heq =>
    rw [heq] at hclock
    exact hclock.trans (aside_note _ _)
  · exact hclock

theorem aside_adopt {b : Binding} (h : p.store.Retains b.store) : Aside p (p.adopt b) :=
  ⟨rfl, rfl, rfl, h⟩

theorem aside_bindPin (p : Panel L μ) (pin : Handle) : Aside p (p.bindPin pin).2 := by
  unfold bindPin
  split
  · next b hb => exact aside_adopt (PinStore.made_retains.bindPin (b := p.binding) hb)
  · exact .refl p

theorem aside_attachElement (p : Panel L μ) (parent : Option Nat) (element : Element) :
    Aside p (p.attachElement parent element).2 := by
  unfold attachElement
  split <;> exact ⟨rfl, rfl, rfl, .refl _⟩

theorem aside_addBuilt (p : Panel L μ) (parent : Option Nat) (tag : String) (props : Props) :
    Aside p (p.addBuilt parent tag props).2 := by
  have hbuild : Aside p (p.buildElement tag props).2 :=
    aside_adopt (PinStore.made_retains.build p.binding tag props p.now)
  unfold addBuilt
  split
  · next element q heq =>
    rw [heq] at hbuild
    exact hbuild.trans (aside_attachElement q parent element)
  · next heq =>
    rw [heq] at hbuild
    exact hbuild

theorem aside_addElement (p : Panel L μ) (parent : Option Nat) (tag : String) (props : Props) :
    Aside p (p.addElement parent tag props).2 := by
  unfold addElement
  split
  · split
    · exact aside_addBuilt p _ tag props
    · exact .refl p
  · exact aside_addBuilt p none tag props

theorem aside_actOn (p : Panel L μ) (id : Nat) (action : UserAction) (times : Nat) :
    Aside p (p.actOn id action times).2 := by
  unfold actOn
  split <;> exact ⟨rfl, rfl, rfl, .refl _⟩

theorem aside_updateElements (p : Panel L μ) : Aside p p.updateElements.2 :=
  ⟨rfl, rfl, rfl, Forest.retains_update p.driver.forest p.store p.now⟩

end Panel

/-- The operation sets the flag of the pin watcher or turns to its clock, or it is one of
the machine's side on a pin. -/
def Operation.isApart {L μ : Type} : Operation L μ → Bool
  | drivePin .. | removePin _ | enablePins _ | disablePins | setPinsEnabled _ => true
  | _ => false

namespace Panel

variable {L μ : Type} {p q r : Panel L μ} {react : Reaction L μ}
  {R : Panel L μ → Panel L μ → Prop}

/-! ## Emissions and passes -/

/-- The relation holds along what is added to the history, with all that an update of the
status and a pass keep of what they find, and along what listeners do. -/
structure Chronicle (react : Reaction L μ) (R : Panel L μ → Panel L μ → Prop) : Prop
    extends Strand R where
  record : ∀ p x, R p (p.record x)
  readPins : ∀ p, R p p.readPins.2
  pollSource : ∀ p, R p p.pollSource.2
  cache : ∀ p s, R p (p.cache s)
  reaction : ∀ l n p, R p (react l n p).2

namespace Chronicle

theorem emit (h : Chronicle react R) (p : Panel L μ) (cause : Cause) (channel : Channel)
    (name : String) (notice : Notice) : R p (p.emit react cause channel name notice).2 := by
  rw [emit_eq]
  refine h.trans (h.record p _) (h.serve h.reaction ?_ ?_ ?_ name _ _)
  · exact fun q s => h.record q _
  · exact fun q s c => h.record q _
  · exact fun q n => h.record q _

theorem requestReload (h : Chronicle react R) (p : Panel L μ) : R p (p.requestReload react) :=
  h.emitAll (fun n _ q => h.emit q .reload .status n.1 n.2) p

theorem pollPins (h : Chronicle react R) (p : Panel L μ) : R p (p.pollPins react).2 := by
  rw [pollPins_snd]
  refine h.trans (h.readPins p) (h.finishPass ?_ ?_ _ _)
  · exact fun q name => h.emit q _ .pins name _
  · exact fun q n => h.record q _

theorem updatePins (h : Chronicle react R) (p : Panel L μ) : R p (p.updatePins react).2 := by
  unfold Panel.updatePins
  split
  · exact h.pollPins p
  · exact h.refl p

theorem tickPins (h : Chronicle react R) (p : Panel L μ) : R p (p.tickPins react).2 := by
  unfold Panel.tickPins
  split
  · exact h.pollPins p
  · exact h.refl p

theorem updateStatus (h : Chronicle react R) (p : Panel L μ) : R p (p.updateStatus react) := by
  rw [updateStatus_eq]
  refine h.trans (h.pollSource p) ?_
  split
  · exact h.acceptSnapshot h.cache (fun q e => h.emit q _ .status e.name _) _ _
  · exact h.note _ _ rfl

end Chronicle

/-! ## Operations -/

/-- The relation holds along changes aside and along what listeners do. -/
structure Sideways (react : Reaction L μ) (R : Panel L μ → Panel L μ → Prop) : Prop
    extends Strand R where
  aside : ∀ {p q}, Aside p q → R p q
  reaction : ∀ l n p, R p (react l n p).2
  refl p := aside (.refl p)
  note p n _ := aside (aside_note p n)

namespace Sideways

theorem chronicle (h : Sideways react R) : Chronicle react R where
  toStrand := h.toStrand
  record p x := h.aside (aside_record p x)
  readPins p := h.aside (aside_readPins p)
  pollSource p := h.aside (aside_pollSource p)
  cache _ _ := h.aside ⟨rfl, rfl, rfl, .refl _⟩
  reaction := h.reaction

theorem tick (h : Sideways react R) (p : Panel L μ) : R p (p.tick react).2 := by
  refine h.trans ?_ (h.trans (h.chronicle.tickPins _) (h.aside (aside_updateElements _)))
  split
  · exact h.chronicle.updateStatus p
  · exact h.refl p

/-- **What holds along changes aside holds along the operations**, but for those that
are apart. -/
theorem perform (h : Sideways react R) (op : Operation L μ) (p : Panel L μ)
    (hapart : op.isApart = true → R p (op.perform react p)) : R p (op.perform react p) := by
  cases op with
  | drivePin | removePin | enablePins | disablePins | setPinsEnabled => exact hapart rfl
  | createPin pin => exact h.aside (aside_createPin p pin)
  | writePin name value =>
    rw [Operation.perform]
    cases hwrite : p.store.write name value with
    | error e => exact h.refl p
    | ok store => exact h.aside (aside_store (PinStore.retains_write hwrite))
  | register pin => exact h.aside (aside_register p pin)
  | newPin pin => exact h.aside (aside_newPin p pin)
  | unregister name => exact h.aside (aside_unregister p name)
  | pollPins => exact h.chronicle.pollPins p
  | updatePins => exact h.chronicle.updatePins p
  | updateStatus => exact h.chronicle.updateStatus p
  | requestReload => exact h.chronicle.requestReload p
  | startStatus driven => exact h.aside (aside_startClock p (by decide) driven)
  | stopStatus => exact h.aside (aside_stopClock p (by decide))
  | subscribe channel filter listener => exact h.aside (aside_subscribe p channel filter listener)
  | unsubscribe channel id => exact h.aside (aside_unsubscribe p channel id)
  | clear channel => exact h.aside (aside_clear p channel)
  | emit channel name notice => exact h.chronicle.emit p .request channel name notice
  | tick => exact h.tick p
  | startDriver driven => exact h.aside (aside_startDriver p driven)
  | stopDriver => exact h.aside (aside_stopClock p (by decide))
  | bindPin pin => exact h.aside (aside_bindPin p pin)
  | addElement parent tag props => exact h.aside (aside_addElement p parent tag props)
  | addBuilt parent tag props => exact h.aside (aside_addBuilt p parent tag props)
  | updateElements => exact h.aside (aside_updateElements p)
  | actOn id action times => exact h.aside (aside_actOn p id action times)
  | publish | editSnapshot | failSource | setPolicy | freshBinder | takeName | takeCreated
    | remember => exact h.aside ⟨rfl, rfl, rfl, .refl _⟩

end Sideways

end Panel

end MachinePanel
