/-
Pins are protected. As long as neither the machine's side nor a listener removes
or drives the pin of a name, nothing that happens on a panel takes the pin away,
gives it another direction or type, or, if it is an input, another value: no
element that is made, no user who acts on one, no pass and no tick.
-/
import MachinePanel.Proofs.Aside

namespace MachinePanel

/-- The operation removes or drives the pin of a name. -/
def Operation.meddlesWith {L μ : Type} (name : String) : Operation L μ → Bool
  | removePin n | drivePin n _ => n == name
  | _ => false

namespace Panel

open PinStore

variable {L μ : Type} {p q : Panel L μ} {react : Reaction L μ} {name : String}

/-- The listeners neither remove nor drive the pin of a name. -/
def SparesPin (conduct : Conduct L μ) (name : String) : Prop :=
  ∀ l n p, (conduct l n p).All (fun _ op => op.meddlesWith name = false) p

theorem Chore.store_eq (h : Chore p q) : q.store = p.store := by
  cases h with
  | clock t c => cases t <;> rfl
  | _ => rfl

theorem retainsAt_walk (name : String) :
    Walk fun p q : Panel L μ => RetainsAt name p.store q.store where
  refl p := .refl name p.store
  trans h h' := h.trans h'
  chore h := by
    rw [h.store_eq]
    exact .refl name _

theorem store_keepStore (p : Panel L μ) (result : Except PinError PinStore) :
    (Operation.keepStore p result).store = (p.store.attempt result).2 := by
  cases result <;> rfl

theorem retainsAt_perform (hreact : ∀ l n p, RetainsAt name p.store (react l n p).2.store)
    {op : Operation L μ} (hop : op.meddlesWith name = false) (p : Panel L μ) :
    RetainsAt name p.store (op.perform react p).store := by
  have hsideways : Sideways react fun p q => RetainsAt name p.store q.store :=
    { (retainsAt_walk name).strand with
      aside := fun h => h.store name
      reaction := hreact }
  refine hsideways.perform op p fun hapart => ?_
  cases op with
  | drivePin n value =>
    have hne : n ≠ name := by simpa [Operation.meddlesWith] using hop
    rw [Operation.perform, store_keepStore]
    exact retainsAt_serve (r := .drive n value) p.store (by simp)
      fun value h => hne (Request.drive.inj h).1
  | removePin n =>
    have hne : n ≠ name := by simpa [Operation.meddlesWith] using hop
    exact retainsAt_serve (r := .remove n) p.store (fun h => hne (Request.remove.inj h))
      (by simp)
  | enablePins driven => exact (retainsAt_walk name).chores (chores_enablePins p driven)
  | disablePins => exact (retainsAt_walk name).chores (chores_disablePins p)
  | setPinsEnabled enabled => exact (retainsAt_walk name).chores (chores_setPinsEnabled p enabled)
  | _ => cases hapart

theorem retainsAt_closed (hreact : ∀ l n p, RetainsAt name p.store (react l n p).2.store) :
    Closed react (fun _ op => op.meddlesWith name = false)
      fun p q : Panel L μ => RetainsAt name p.store q.store where
  toWalk := retainsAt_walk name
  perform hop := retainsAt_perform hreact hop _

/-- The pin of a name is retained along every run in which nobody removes or drives it. -/
theorem retainsAt_run {conduct : Conduct L μ} (hconduct : SparesPin conduct name) (depth : Nat)
    (p : Panel L μ) {steps : List (Step L μ)}
    (hsteps : ∀ op, .operation op ∈ steps → op.meddlesWith name = false) :
    RetainsAt name p.store (p.run (conduct.react depth) steps).store :=
  (retainsAt_closed (Closed.reaction (retainsAt_walk name).refl hconduct
    (fun hreact => retainsAt_closed hreact) depth)).run (fun _ => ⟨rfl, rfl, rfl⟩) steps
    (fun op hop _ => hsteps op hop) p

/-- **Pins are protected.** However a store has come about, its pins have pin names,
and a pin that is made has the direction and the type it was asked for. From then
on until it is removed it keeps both, and an input its value unless it is driven.
A request that is refused changes nothing, and any other no more than the pin it
names. Whatever happens on a panel, with whatever elements, retains each pin that
nobody removes or drives. -/
theorem pins_protected (before : List Request) :
    let store := ({} : PinStore).serveAll before
    (∀ name, store.contains name = true → PinName.isValid name = true) ∧
    (∀ name ∈ store.names, PinName.isValid name = true) ∧
    (∀ pin store', store.create pin = .ok store' → store'.Fits pin) ∧
    (∀ name slot requests, store.slot? name = some slot → .remove name ∉ requests →
      ∃ slot', (store.serveAll requests).slot? name = some slot' ∧
        slot.Keeps (∃ value, .drive name value ∈ requests) slot') ∧
    (∀ r e, (store.serve r).1 = some e → (store.serve r).2 = store) ∧
    (∀ r name, name ≠ r.name → (store.serve r).2.slot? name = store.slot? name) ∧
    (∀ (L μ : Type) (conduct : Conduct L μ) (depth : Nat) (p : Panel L μ)
      (steps : List (Step L μ)) (name : String) (slot : Slot),
      p.store.slot? name = some slot → SparesPin conduct name →
      (∀ op, .operation op ∈ steps → op.meddlesWith name = false) →
      ∃ slot', (p.run (conduct.react depth) steps).store.slot? name = some slot' ∧
        slot.Keeps False slot') := by
  intro store
  have hnamed : store.Named := Named.serveAll (fun entry hentry => by cases hentry) before
  refine ⟨fun name => hnamed.isValid, fun name hname => ?_, fun pin store' h => (create_ok h).2,
    fun name slot requests => keeps_serveAll, fun r e => serve_eq_self,
    fun r name => slot?_serve_other,
    fun L μ conduct depth p steps name slot hslot hconduct hsteps =>
      retainsAt_run hconduct depth p hsteps slot hslot⟩
  obtain ⟨entry, hentry, rfl⟩ := List.mem_map.1 (List.mem_mergeSort.1 hname)
  exact hnamed entry hentry

/-- Requests that make an input, drive it, and try to write it. -/
def stopRequests : List Request :=
  [.create ⟨"stop", .input, .bit⟩, .drive "stop" (.bit true), .write "stop" (.bit false)]

/-- Elements on the pin, one of them a control that would write it. -/
def stopSteps : List (Step Unit Unit) :=
  [.operation (.subscribe .pins .any ()),
    .operation (.addElement none "led" { pinName := some "stop", disablePin := true }),
    .operation (.addElement none "checkbutton" { pinName := some "stop" }),
    .operation (.newPin ⟨"stop", .input, .bit⟩), .operation (.actOn 1 .toggle 1),
    .operation .tick, .operation .pollPins]

theorem pins_protected_stop :
    let store := ({} : PinStore).serveAll stopRequests
    let p : Panel Unit Unit := { store, memory := () }
    store.slot? "stop" = some ⟨.input, .bit true⟩ ∧ SparesPin helpful "stop" ∧
      (∀ op, .operation op ∈ stopSteps → op.meddlesWith "stop" = false) ∧
      (p.run (helpful.react 2) stopSteps).store.slot? "stop" = some ⟨.input, .bit true⟩ := by
  intro store p
  have hslot : store.slot? "stop" = some ⟨.input, .bit true⟩ := by rfl
  have hconduct : SparesPin helpful "stop" :=
    fun _ _ _ => ⟨rfl, fun _ => ⟨rfl, fun _ => ⟨rfl, fun _ => trivial⟩⟩⟩
  have hsteps : ∀ op, .operation op ∈ stopSteps → op.meddlesWith "stop" = false := by
    intro op hop
    simp [stopSteps] at hop
    rcases hop with rfl | rfl | rfl | rfl | rfl | rfl | rfl <;> rfl
  obtain ⟨-, -, -, -, -, -, hpanels⟩ := pins_protected stopRequests
  obtain ⟨slot', hslot', hkeeps⟩ :=
    hpanels Unit Unit helpful 2 p stopSteps "stop" _ hslot hconduct hsteps
  rw [hkeeps.value rfl id] at hslot'
  exact ⟨hslot, hconduct, hsteps, hslot'⟩

end Panel

end MachinePanel
