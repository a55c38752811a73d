/-
What leaves a watched pin alone. As long as nobody polls, ticks, turns the watcher off,
removes the pin or has its name registered anew or no longer, the watcher stays enabled,
the driver keeps its configuration, the handle goes on fitting the store, and the entries
of the name are not touched (`Heeds`). Nor does any pass report anything meanwhile.
`heeds_perform` says so of every such operation, and `heeds_react` of all that listeners
do who keep to them.
-/
import MachinePanel.Proofs.Onlookers
import MachinePanel.Proofs.Protection

namespace MachinePanel

/-- What a pass reports, if the happening is an emission of one. -/
def Happening.report? {L : Type} : Happening L → Option Tiding
  | emission (.pass _) channel name notice => some (channel, name, notice)
  | _ => none

/-- What passes report. -/
def reports {L : Type} (happenings : List (Happening L)) : List Tiding :=
  happenings.filterMap Happening.report?

/-- The operation leaves the watching of a pin alone: it makes no pass, and neither turns
the watcher off nor removes the pin nor changes what is registered under its name. -/
def Operation.sparesWatch {L μ : Type} (name : String) : Operation L μ → Bool
  | pollPins | updatePins | tick | disablePins => false
  | setPinsEnabled enabled => enabled
  | removePin n | unregister n => n != name
  | register pin | newPin pin => pin.name != name
  | _ => true

/-- All that listeners do leaves the watching of a pin alone. -/
def SparesWatch {L μ : Type} (conduct : Conduct L μ) (name : String) : Prop :=
  ∀ l n p, (conduct l n p).All (fun _ op => op.sparesWatch name = true) p

namespace Panel

variable {L μ : Type} {p q r : Panel L μ} {react : Reaction L μ} {pin : Handle}
  {told told' : List Tiding}

/-- The entries of the watch list under a name. -/
def entriesOf (p : Panel L μ) (name : String) : List Watch :=
  p.pins.list.filter (·.pin.name == name)

/-- From `p` to `q` the pin goes on being watched as it was, and passes report these tidings. -/
structure Heeds (pin : Handle) (told : List Tiding) (p q : Panel L μ) : Prop where
  enabled : p.pins.enabled = true → q.pins.enabled = true
  config : q.driver.config = p.driver.config
  fits : p.store.Fits pin → q.store.Fits pin
  entries : q.entriesOf pin.name = p.entriesOf pin.name
  continues : p.past <+: q.past
  told : reports (since p q) = told

theorem Heeds.trans (h : Heeds pin told p q) (h' : Heeds pin told' q r) :
    Heeds pin (told ++ told') p r where
  enabled := h'.enabled ∘ h.enabled
  config := h'.config.trans h.config
  fits := h'.fits ∘ h.fits
  entries := h'.entries.trans h.entries
  continues := h.continues.trans h'.continues
  told := by
    rw [since_append h.continues h'.continues, reports, List.filterMap_append]
    exact congrArg₂ _ h.told h'.told

/-- A step that leaves the pins and the driver alone and adds to the history. -/
theorem heeds_of_past {added : List (Happening L)} (hpast : q.past = p.past ++ added)
    (hpins : q.pins.enabled = p.pins.enabled ∧ q.entriesOf pin.name = p.entriesOf pin.name)
    (hdriver : q.driver.config = p.driver.config) (hstore : q.store = p.store) :
    Heeds pin (reports added) p q where
  enabled h := hpins.1.trans h
  config := hdriver
  fits h := hstore ▸ h
  entries := hpins.2
  continues := ⟨added, hpast.symm⟩
  told := by rw [since_eq hpast]

theorem heeds_of_quiet (h : Quiet p q) (henabled : p.pins.enabled = true → q.pins.enabled = true)
    (hconfig : q.driver.config = p.driver.config) (hfits : p.store.Fits pin → q.store.Fits pin) :
    Heeds pin [] p q where
  enabled := henabled
  config := hconfig
  fits := hfits
  entries := by rw [entriesOf, h.list, entriesOf]
  continues := ⟨[], by rw [List.append_nil, h.past]⟩
  told := by rw [h.since]; rfl

theorem heeds_record (p : Panel L μ) {x : Happening L} (hx : x.report?.toList = told) :
    Heeds pin told p (p.record x) := by
  have h : Heeds pin (reports [x]) p (p.record x) :=
    heeds_of_past (past_record p x) ⟨rfl, rfl⟩ rfl rfl
  rw [reports, List.filterMap_cons, List.filterMap_nil] at h
  rw [← hx]
  cases hr : x.report? <;> rwa [hr] at h

theorem heeds_strand : Strand (Heeds (L := L) (μ := μ) pin []) where
  refl p := heeds_of_quiet (.refl p) id rfl id
  trans := Heeds.trans
  note p n _ := heeds_of_quiet (quiet_note p n) id rfl id

/-! ## Emissions -/

variable (hreact : ∀ l n p, Heeds pin [] p (react l n p).2)
include hreact

theorem heeds_emit (p : Panel L μ) {cause : Cause} {channel : Channel} {name : String}
    {notice : Notice}
    (htold : (Happening.report? (L := L) (.emission cause channel name notice)).toList = told) :
    Heeds pin told p (p.emit react cause channel name notice).2 := by
  rw [emit_eq, ← List.append_nil told]
  refine (heeds_record p htold).trans (heeds_strand.serve hreact ?_ ?_ ?_ name _ _)
  · exact fun q s => heeds_record q rfl
  · exact fun q s c => heeds_record q rfl
  · exact fun q n => heeds_record q rfl

/-- The emissions of a pass are reports. -/
theorem heeds_finishPass (number : Nat) (names : List String) (p : Panel L μ) :
    Heeds pin ((pinNotices names).map (.pins, ·)) p (p.finishPass react number names) := by
  have hall : ∀ (notices : List (String × Notice)) (p : Panel L μ),
      Heeds pin (notices.map (.pins, ·)) p (p.emitAll react (.pass number) .pins notices) := by
    intro notices
    induction notices with
    | nil => exact heeds_strand.refl
    | cons n rest ih =>
      intro p
      have hemit : Heeds pin [(.pins, n)] p
          (p.emit react (.pass number) .pins n.1 n.2).2 := heeds_emit hreact p rfl
      exact hemit.trans (ih _)
  have hend : ∀ q : Panel L μ, Heeds pin [] q (q.record (.passEnd number names.length)) :=
    fun q => heeds_record q rfl
  have h := (hall (pinNotices names) p).trans (hend _)
  rwa [List.append_nil] at h

theorem heeds_updateStatus (p : Panel L μ) : Heeds pin [] p (p.updateStatus react) := by
  have hpoll : Heeds pin [] p p.pollSource.2 := heeds_of_past (past_pollSource p) ⟨rfl, rfl⟩ rfl rfl
  rw [updateStatus_eq]
  refine heeds_strand.trans hpoll ?_
  split
  · refine heeds_strand.acceptSnapshot ?_ ?_ _ _
    · intro q s
      have hpast : (q.cache s).past = q.past ++ [] := (List.append_nil _).symm
      exact heeds_of_past hpast ⟨rfl, rfl⟩ rfl rfl
    · exact fun q e => heeds_emit hreact q rfl
  · exact heeds_of_quiet (quiet_note _ _) id rfl id

omit hreact

/-! ## Operations -/

theorem Chore.config_eq (h : Chore p q) : q.driver.config = p.driver.config := by
  cases h with
  | clock t c => cases t <;> rfl
  | _ => rfl

theorem Chores.config_eq (h : Chores p q) : q.driver.config = p.driver.config := by
  induction h with
  | refl => rfl
  | tail _ hlast ih => exact hlast.config_eq.trans ih

theorem config_createPin (p : Panel L μ) (pin : Handle) :
    (p.createPin pin).2.driver.config = p.driver.config := by
  unfold createPin
  split
  · rfl
  · simp only
    split <;> rfl

theorem config_bindPin (p : Panel L μ) (pin : Handle) :
    (p.bindPin pin).2.driver.config = p.driver.config := by
  unfold bindPin
  split <;> rfl

theorem config_attachElement (p : Panel L μ) (parent : Option Nat) (element : Element) :
    (p.attachElement parent element).2.driver.config = p.driver.config := by
  unfold attachElement
  split <;> rfl

theorem config_addBuilt (p : Panel L μ) (parent : Option Nat) (tag : String) (props : Props) :
    (p.addBuilt parent tag props).2.driver.config = p.driver.config := by
  have hbuild : (p.buildElement tag props).2.driver.config = p.driver.config := rfl
  unfold addBuilt
  split
  · next heq =>
    rw [heq] at hbuild
    exact (config_attachElement _ parent _).trans hbuild
  · next heq =>
    rw [heq] at hbuild
    exact hbuild

theorem config_addElement (p : Panel L μ) (parent : Option Nat) (tag : String) (props : Props) :
    (p.addElement parent tag props).2.driver.config = p.driver.config := by
  unfold addElement
  split
  · split
    · exact config_addBuilt p _ tag props
    · rfl
  · exact config_addBuilt p none tag props

theorem config_actOn (p : Panel L μ) (id : Nat) (action : UserAction) (times : Nat) :
    (p.actOn id action times).2.driver.config = p.driver.config := by
  unfold actOn
  split <;> rfl

theorem config_keepStore (p : Panel L μ) (result : Except PinError PinStore) :
    (Operation.keepStore p result).driver.config = p.driver.config := by
  cases result <;> rfl

/-- A quiet operation keeps the configuration of the driver. -/
theorem config_perform {op : Operation L μ} (hop : op.isQuiet = true) (p : Panel L μ) :
    (op.perform react p).driver.config = p.driver.config := by
  cases op with
  | createPin pin => exact config_createPin p pin
  | writePin | drivePin => exact config_keepStore p _
  | enablePins driven => exact (chores_enablePins p driven).config_eq
  | disablePins => exact (chores_disablePins p).config_eq
  | setPinsEnabled enabled => exact (chores_setPinsEnabled p enabled).config_eq
  | startStatus driven => exact (chores_startClock p _ driven).config_eq
  | stopStatus | stopDriver => exact (chores_stopClock p _).config_eq
  | startDriver driven => exact (chores_startDriver p driven).config_eq
  | bindPin pin => exact config_bindPin p pin
  | addElement parent tag props => exact config_addElement p parent tag props
  | addBuilt parent tag props => exact config_addBuilt p parent tag props
  | actOn id action times => exact config_actOn p id action times
  | removePin | publish | editSnapshot | failSource | setPolicy | freshBinder | takeName
    | takeCreated | updateElements => rfl
  | register | newPin | unregister | pollPins | updatePins | updateStatus | requestReload
    | subscribe | unsubscribe | clear | emit | tick | remember => cases hop

theorem fits_of_retainsAt {store store' : PinStore} (h : store.RetainsAt pin.name store')
    (hfits : store.Fits pin) : store'.Fits pin := by
  obtain ⟨slot, hslot, hdirection, htype⟩ := hfits
  obtain ⟨slot', hslot', hkeeps⟩ := h slot hslot
  exact ⟨slot', hslot', hkeeps.direction.trans hdirection, hkeeps.type.trans htype⟩

theorem fits_of_chores (h : Chores p q) (hfits : p.store.Fits pin) : q.store.Fits pin :=
  fits_of_retainsAt ((retainsAt_walk pin.name).chores h) hfits

theorem fits_keepStore {result : Except PinError PinStore}
    (hresult : ∀ store, result = .ok store → p.store.Extends store) (hfits : p.store.Fits pin) :
    (Operation.keepStore p result).store.Fits pin := by
  cases result with
  | error e => exact hfits
  | ok store => exact hfits.mono (hresult store rfl)

theorem pins_keepStore (p : Panel L μ) (result : Except PinError PinStore) :
    (Operation.keepStore p result).pins = p.pins := by
  cases result <;> rfl

theorem enabled_enablePins (henabled : p.pins.enabled = true) (driven : Bool) :
    (p.enablePins driven).2.pins.enabled = true := by
  have hstart : ((p.markEnabled true).startClock .pins driven).2.pins.enabled = true := by
    unfold startClock
    split
    · rfl
    · simp only
      split <;> rfl
  unfold enablePins
  simp only
  split
  · next heq =>
    rw [heq] at hstart
    exact hstart
  · next heq =>
    rw [heq] at hstart
    rw [if_pos henabled]
    exact hstart

/-- An operation that spares the pin leaves the watcher enabled, and the handle fitting. -/
theorem sparing_perform (hreact : ∀ l n p, Heeds pin [] p (react l n p).2) {op : Operation L μ}
    (hop : op.sparesWatch pin.name = true) (p : Panel L μ) :
    (p.pins.enabled = true → (op.perform react p).pins.enabled = true) ∧
      (p.store.Fits pin → (op.perform react p).store.Fits pin) := by
  have hsideways : Sideways react fun p q : Panel L μ =>
      (p.pins.enabled = true → q.pins.enabled = true) ∧ (p.store.Fits pin → q.store.Fits pin) :=
    { trans := fun h h' => ⟨h'.1 ∘ h.1, h'.2 ∘ h.2⟩
      aside := fun h => ⟨h.enabled.trans, fits_of_retainsAt (h.store pin.name)⟩
      reaction := fun l n p => ⟨(hreact l n p).enabled, (hreact l n p).fits⟩ }
  refine hsideways.perform op p fun hapart => ?_
  cases op with
  | drivePin n value =>
    refine ⟨fun h => ?_, fits_keepStore fun store => PinStore.drive_ok⟩
    rw [Operation.perform, pins_keepStore]
    exact h
  | removePin n =>
    have hne : pin.name ≠ n := by
      rintro rfl
      simp [Operation.sparesWatch] at hop
    refine ⟨id, ?_⟩
    rintro ⟨slot, hslot, hmatch⟩
    exact ⟨slot, (PinStore.slot?_remove_other p.store hne).trans hslot, hmatch⟩
  | enablePins driven =>
    exact ⟨(enabled_enablePins · driven), fits_of_chores (chores_enablePins p driven)⟩
  | setPinsEnabled enabled =>
    refine ⟨fun _ => ?_, fits_of_chores (chores_setPinsEnabled p enabled)⟩
    obtain rfl : enabled = true := hop
    simp only [Operation.perform, setPinsEnabled]
    split <;> rfl
  | disablePins => cases hop
  | _ => cases hapart

theorem entriesOf_register (p : Panel L μ) {other : Handle} (hne : other.name ≠ pin.name) :
    (p.register other).entriesOf pin.name = p.entriesOf pin.name := by
  have hlist : (p.register other).pins.list =
      p.pins.list ++ [⟨p.pins.registrations, other, none⟩] := rfl
  rw [entriesOf, hlist, List.filter_append, entriesOf]
  simp [hne]

theorem entriesOf_unregister (p : Panel L μ) {name : String} (hne : name ≠ pin.name) :
    (p.unregister name).2.entriesOf pin.name = p.entriesOf pin.name := by
  have hlist : (p.unregister name).2.pins.list = p.pins.list.filter (·.pin.name != name) := rfl
  rw [entriesOf, hlist, List.filter_filter, entriesOf]
  refine List.filter_congr fun w _ => ?_
  by_cases hw : w.pin.name = pin.name
  · simp [hw, Ne.symm hne]
  · simp [hw]

theorem heeds_register (p : Panel L μ) {other : Handle} (hne : other.name ≠ pin.name) :
    Heeds pin [] p (p.register other) :=
  heeds_of_past (past_register p other) ⟨rfl, entriesOf_register p hne⟩ rfl rfl

theorem heeds_newPin (p : Panel L μ) {other : Handle} (hne : other.name ≠ pin.name) :
    Heeds pin [] p (p.newPin other).2 := by
  have haside := aside_createPin p other
  have hcreate : Heeds pin [] p (p.createPin other).2 :=
    heeds_of_quiet (quiet_createPin p other) haside.enabled.trans (config_createPin p other)
      (fits_of_retainsAt (haside.store pin.name))
  unfold newPin
  split
  · next q heq =>
    rw [heq] at hcreate
    exact hcreate.trans (heeds_register q hne)
  · exact hcreate

theorem heeds_unregister (p : Panel L μ) {name : String} (hne : name ≠ pin.name) :
    Heeds pin [] p (p.unregister name).2 :=
  heeds_of_past (past_unregister p name) ⟨rfl, entriesOf_unregister p hne⟩ rfl rfl

/-- **What spares the watching of a pin heeds it.** -/
theorem heeds_perform (hreact : ∀ l n p, Heeds pin [] p (react l n p).2) {op : Operation L μ}
    (hop : op.sparesWatch pin.name = true) (p : Panel L μ) :
    Heeds pin [] p (op.perform react p) := by
  obtain ⟨henabled, hfits⟩ := sparing_perform hreact hop p
  by_cases hquiet : op.isQuiet = true
  · exact heeds_of_quiet (quiet_perform hquiet p) henabled (config_perform hquiet p) hfits
  · cases op with
    | register other => exact heeds_register p (by simpa [Operation.sparesWatch] using hop)
    | newPin other => exact heeds_newPin p (by simpa [Operation.sparesWatch] using hop)
    | unregister name => exact heeds_unregister p (by simpa [Operation.sparesWatch] using hop)
    | updateStatus => exact heeds_updateStatus hreact p
    | requestReload => exact heeds_strand.emitAll (fun n _ q => heeds_emit hreact q rfl) p
    | subscribe channel filter listener =>
      refine heeds_of_past (past_subscribe p channel filter listener) ?_ ?_ ?_
      · cases channel <;> exact ⟨rfl, rfl⟩
      · cases channel <;> rfl
      · cases channel <;> rfl
    | unsubscribe channel id =>
      refine heeds_of_past (past_unsubscribe p channel id) ?_ ?_ ?_ <;>
        simp only [unsubscribe]
      · cases channel <;> split <;> exact ⟨rfl, rfl⟩
      · cases channel <;> split <;> rfl
      · cases channel <;> split <;> rfl
    | clear channel =>
      refine heeds_of_past (past_clear p channel) ?_ ?_ ?_
      · cases channel <;> exact ⟨rfl, rfl⟩
      · cases channel <;> rfl
      · cases channel <;> rfl
    | emit channel name notice => exact heeds_emit hreact p rfl
    | remember change =>
      have hpast : (Operation.perform react (.remember change) p).past = p.past ++ [] :=
        (List.append_nil _).symm
      exact heeds_of_past hpast ⟨rfl, rfl⟩ rfl rfl
    | pollPins | updatePins | tick => cases hop
    | _ => exact absurd rfl hquiet

/-- What listeners do heeds the pin, if it spares its watching. -/
theorem heeds_react {conduct : Conduct L μ} (h : SparesWatch conduct pin.name) (depth : Nat)
    (l : L) (n : Notice) (p : Panel L μ) : Heeds pin [] p (conduct.react depth l n p).2 :=
  heeds_strand.reaction h (fun hreact _ p hop => heeds_perform hreact hop p) depth l n p

theorem heeds_chore (h : Chore p q) (henabled : q.pins.enabled = p.pins.enabled) :
    Heeds pin [] p q :=
  heeds_of_quiet h.quiet henabled.trans h.config_eq fun hfits => h.store_eq ▸ hfits

end Panel

end MachinePanel
