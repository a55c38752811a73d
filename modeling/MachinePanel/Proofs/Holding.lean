/-
Pins that stay as they are. Making a pin anew changes nothing about it, and to make elements
is to make pins (`Made`). So the pin of a name keeps its value as long as nobody writes,
drives or removes it and the elements are not updated, whatever else is asked of the panel
(`holds_perform`).
-/
import MachinePanel.Proofs.Protection

namespace MachinePanel

namespace PinStore

variable {L μ : Type} {S : PinStore → PinStore → Prop} {name : String}

namespace Made

theorem createPin (h : Made S) (p : Panel L μ) (pin : Handle) :
    S p.store (p.createPin pin).2.store := by
  unfold Panel.createPin
  split
  · exact h.refl _
  · next store hcreate =>
    simp only
    split <;> exact h.create hcreate

theorem newPin (h : Made S) (p : Panel L μ) (pin : Handle) : S p.store (p.newPin pin).2.store := by
  have hcreate := h.createPin p pin
  unfold Panel.newPin
  split
  · next heq =>
    rw [heq] at hcreate
    exact hcreate
  · exact hcreate

theorem panelBindPin (h : Made S) (p : Panel L μ) (pin : Handle) :
    S p.store (p.bindPin pin).2.store := by
  unfold Panel.bindPin
  split
  · next hb => exact h.bindPin hb
  · exact h.refl _

theorem addBuilt (h : Made S) (p : Panel L μ) (parent : Option Nat) (tag : String)
    (props : Props) : S p.store (p.addBuilt parent tag props).2.store := by
  have hbuild : S p.store (p.buildElement tag props).2.store := h.build p.binding tag props p.now
  unfold Panel.addBuilt
  split
  · next heq =>
    rw [heq] at hbuild
    unfold Panel.attachElement
    split <;> exact hbuild
  · next heq =>
    rw [heq] at hbuild
    exact hbuild

theorem addElement (h : Made S) (p : Panel L μ) (parent : Option Nat) (tag : String)
    (props : Props) : S p.store (p.addElement parent tag props).2.store := by
  unfold Panel.addElement
  split
  · split
    · exact h.addBuilt p _ tag props
    · exact h.refl _
  · exact h.addBuilt p none tag props

end Made

/-- The pin of a name, if there is one, is still there as it was. -/
def HasStill (name : String) (store store' : PinStore) : Prop :=
  ∀ slot, store.slot? name = some slot → store'.slot? name = some slot

theorem made_hasStill (name : String) : Made (HasStill name) where
  refl _ _ h := h
  trans h h' slot hslot := h' slot (h slot hslot)
  create := by
    intro store pin store' hcreate slot hslot
    have hserve : (store.serve (.create pin)).2 = store' := by
      rw [serve, hcreate]
      rfl
    rw [← hserve]
    by_cases hname : name = pin.name
    · subst hname
      have hself := slot?_serve_self store (.create pin)
      rw [Request.name, hslot] at hself
      exact hself
    · rw [slot?_serve_other (r := .create pin) hname, hslot]

end PinStore

/-- The operation leaves the value of a pin alone: it neither writes the pin of the name, nor
drives or removes it, nor has the elements updated. -/
def Operation.sparesValue {L μ : Type} (name : String) : Operation L μ → Bool
  | writePin n _ | drivePin n _ | removePin n => n != name
  | updateElements | tick => false
  | _ => true

/-- All that listeners do leaves the value of a pin alone. -/
def SparesValue {L μ : Type} (conduct : Conduct L μ) (name : String) : Prop :=
  ∀ l n p, (conduct l n p).All (fun _ op => op.sparesValue name = true) p

namespace Panel

variable {L μ : Type} {p q r : Panel L μ} {react : Reaction L μ} {name : String}

/-- From `p` to `q` the pin of a name stays as it is. -/
def Holds (name : String) (p q : Panel L μ) : Prop :=
  p.store.HasStill name q.store

theorem holds_of_store (h : q.store = p.store) : Holds name p q :=
  fun _ hslot => h ▸ hslot

theorem holds_walk : Walk (Holds (L := L) (μ := μ) name) where
  refl _ := holds_of_store rfl
  trans h h' := (PinStore.made_hasStill name).trans h h'
  chore h := holds_of_store h.store_eq

theorem holds_chronicle (hreact : ∀ l n p, Holds name p (react l n p).2) :
    Chronicle react (Holds (L := L) (μ := μ) name) where
  toStrand := holds_walk.strand
  record _ _ := holds_of_store rfl
  readPins _ := holds_of_store rfl
  pollSource _ := holds_of_store rfl
  cache _ _ := holds_of_store rfl
  reaction := hreact

/-- **What spares the value of a pin leaves the pin as it is.** -/
theorem holds_perform (hreact : ∀ l n p, Holds name p (react l n p).2) {op : Operation L μ}
    (hop : op.sparesValue name = true) (p : Panel L μ) : Holds name p (op.perform react p) := by
  have hmade := PinStore.made_hasStill name
  cases op with
  | createPin pin => exact hmade.createPin p pin
  | writePin n value =>
    have hne : n ≠ name := by simpa [Operation.sparesValue] using hop
    intro slot hslot
    rw [Operation.perform, store_keepStore]
    exact (PinStore.slot?_serve_other (r := .write n value) hne.symm).trans hslot
  | drivePin n value =>
    have hne : n ≠ name := by simpa [Operation.sparesValue] using hop
    intro slot hslot
    rw [Operation.perform, store_keepStore]
    exact (PinStore.slot?_serve_other (r := .drive n value) hne.symm).trans hslot
  | removePin n =>
    have hne : n ≠ name := by simpa [Operation.sparesValue] using hop
    exact fun slot hslot => (PinStore.slot?_remove_other p.store hne.symm).trans hslot
  | newPin pin => exact hmade.newPin p pin
  | pollPins => exact (holds_chronicle hreact).pollPins p
  | updatePins => exact (holds_chronicle hreact).updatePins p
  | enablePins driven => exact holds_walk.chores (chores_enablePins p driven)
  | disablePins => exact holds_walk.chores (chores_disablePins p)
  | setPinsEnabled enabled => exact holds_walk.chores (chores_setPinsEnabled p enabled)
  | updateStatus => exact (holds_chronicle hreact).updateStatus p
  | requestReload => exact (holds_chronicle hreact).requestReload p
  | startStatus driven => exact holds_walk.chores (chores_startClock p _ driven)
  | stopStatus | stopDriver => exact holds_walk.chores (chores_stopClock p _)
  | startDriver driven => exact holds_walk.chores (chores_startDriver p driven)
  | subscribe channel filter listener => cases channel <;> exact holds_of_store rfl
  | unsubscribe channel id =>
    refine holds_of_store ?_
    simp only [Operation.perform, unsubscribe]
    cases channel <;> split <;> rfl
  | clear channel => cases channel <;> exact holds_of_store rfl
  | emit channel event notice =>
    exact (holds_chronicle hreact).emit p .request channel event notice
  | bindPin pin => exact hmade.panelBindPin p pin
  | addElement parent tag props => exact hmade.addElement p parent tag props
  | addBuilt parent tag props => exact hmade.addBuilt p parent tag props
  | actOn id action times =>
    refine holds_of_store ?_
    simp only [Operation.perform, actOn]
    split <;> rfl
  | register | unregister | publish | editSnapshot | failSource | setPolicy | freshBinder
    | takeName | takeCreated | remember => exact holds_of_store rfl
  | updateElements | tick => cases hop

theorem holds_react {conduct : Conduct L μ} (h : SparesValue conduct name) (depth : Nat) (l : L)
    (n : Notice) (p : Panel L μ) : Holds name p (conduct.react depth l n p).2 :=
  holds_walk.strand.reaction h (fun hreact _ p hop => holds_perform hreact hop p) depth l n p

/-- A pin that stays as it is reads as before. -/
theorem Holds.readAs {pin : Handle} (h : Holds pin.name p q) (hfits : p.store.Fits pin) :
    q.store.readAs pin = p.store.readAs pin := by
  obtain ⟨slot, hslot, hread⟩ := hfits.readAs
  rw [hread]
  simpa only [PinStore.readAs, PinStore.read, hslot, h slot hslot] using hread

end Panel

end MachinePanel
