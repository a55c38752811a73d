/-
Panels on which no pin is ever missing. As long as nobody removes a pin, and pins
are only watched once they are made, every handle of an element and of the watch
list fits the store (`Intact`): making an element makes its pins, and whatever
writes a pin leaves its direction and type alone. So no update of an element
fails, and no pass drops an entry (`run_intact`).
-/
import MachinePanel.Proofs.History
import MachinePanel.Proofs.Rounds

namespace MachinePanel

/-- The pin could not be read. -/
def Reading.isFailed (r : Reading) : Bool :=
  match r.result with
  | .ok _ => false
  | .error _ => true

/-- The happening is a pass that could not read a pin. -/
def Happening.isFailedPass {L : Type} : Happening L → Bool
  | pass readings => readings.any Reading.isFailed
  | _ => false

namespace Panel

variable {L μ : Type} {p q : Panel L μ} {react : Reaction L μ}

/-- Every pin that elements and the watch list refer to is there, and none has been missing. -/
structure Intact (p : Panel L μ) : Prop where
  planted : p.driver.forest.Planted
  seated : ∀ id e, p.driver.forest.element? id = some e → e.Seated p.store
  watched : ∀ w ∈ p.pins.list, p.store.Fits w.pin
  journal : ∀ n ∈ p.journal, n.isPinFailure = false
  passes : ∀ x ∈ p.past, x.isFailedPass = false

/-- The panel is intact if it was before. -/
def Keeps (p q : Panel L μ) : Prop :=
  p.Intact → q.Intact

/-! ## Steps -/

theorem Intact.of_eq (h : p.Intact) (hstore : q.store = p.store)
    (hforest : q.driver.forest = p.driver.forest) (hlist : q.pins.list = p.pins.list)
    (hjournal : q.journal = p.journal) (hpast : q.past = p.past) : q.Intact where
  planted := hforest ▸ h.planted
  seated := by
    rw [hforest, hstore]
    exact h.seated
  watched := by
    rw [hlist, hstore]
    exact h.watched
  journal := hjournal ▸ h.journal
  passes := hpast ▸ h.passes

theorem Intact.note (h : p.Intact) {n : Note} (hn : n.isPinFailure = false) :
    (p.note n).Intact where
  planted := h.planted
  seated := h.seated
  watched := h.watched
  journal m hm := by
    rcases Array.mem_push.1 hm with hm | rfl
    · exact h.journal m hm
    · exact hn
  passes := h.passes

theorem Intact.noteAll (h : p.Intact) {notes : List Note}
    (hnotes : ∀ n ∈ notes, n.isPinFailure = false) : (p.noteAll notes).Intact where
  planted := h.planted
  seated := h.seated
  watched := h.watched
  journal m hm := by
    rcases Array.mem_append.1 hm with hm | hm
    · exact h.journal m hm
    · exact hnotes m (List.mem_toArray.1 hm)
  passes := h.passes

/-- Anything may be added to the history but a pass that could not read a pin. -/
theorem Intact.record (h : p.Intact) {x : Happening L} (hx : x.isFailedPass = false) :
    (p.record x).Intact where
  planted := h.planted
  seated := h.seated
  watched := h.watched
  journal := h.journal
  passes y hy := by
    rw [past_record, List.mem_append, List.mem_singleton] at hy
    rcases hy with hy | rfl
    · exact h.passes y hy
    · exact hx

theorem Intact.extend (h : p.Intact) {store : PinStore} (hext : p.store.Extends store) :
    ({ p with store } : Panel L μ).Intact where
  planted := h.planted
  seated id e he := (h.seated id e he).mono hext
  watched w hw := (h.watched w hw).mono hext
  journal := h.journal
  passes := h.passes

theorem Intact.chore (h : p.Intact) (hc : Chore p q) : q.Intact := by
  cases hc with
  | note n hn => exact h.note hn
  | clock t c => cases t <;> exact h.of_eq rfl rfl rfl rfl rfl
  | _ => exact h.of_eq rfl rfl rfl rfl rfl

theorem keeps_walk : Walk (Keeps (L := L) (μ := μ)) where
  refl _ h := h
  trans h h' hp := h' (h hp)
  chore hc h := h.chore hc

theorem keeps_record {x : Happening L} (hx : x.isFailedPass = false) (p : Panel L μ) :
    Keeps p (p.record x) :=
  fun h => h.record hx

/-! ## Emissions -/

theorem Intact.setBus (h : p.Intact) (channel : Channel) (bus : Bus L) :
    (p.setBus channel bus).Intact := by
  cases channel <;> exact h.of_eq rfl rfl rfl rfl rfl

theorem keeps_emit (hreact : ∀ l n p, Keeps p (react l n p).2) (p : Panel L μ) (cause : Cause)
    (channel : Channel) (name : String) (notice : Notice) :
    Keeps p (p.emit react cause channel name notice).2 := by
  rw [emit_eq]
  refine keeps_walk.trans (keeps_record rfl p) (keeps_walk.strand.serve hreact ?_ ?_ ?_ name _ _)
  · exact fun q s => keeps_record rfl q
  · exact fun q s c => keeps_record rfl q
  · exact fun q n => keeps_record rfl q

theorem keeps_emitAll (hreact : ∀ l n p, Keeps p (react l n p).2) (p : Panel L μ) (cause : Cause)
    (channel : Channel) (notices : List (String × Notice)) :
    Keeps p (p.emitAll react cause channel notices) :=
  keeps_walk.strand.emitAll (fun n _ q => keeps_emit hreact q cause channel n.1 n.2) p

theorem Intact.unsubscribe (h : p.Intact) (channel : Channel) (id : Nat) :
    (p.unsubscribe channel id).2.Intact := by
  have hrecord := (h.setBus channel ((p.bus channel).unsubscribe id).2).record
    (x := .unsubscribed channel id) rfl
  simp only [Panel.unsubscribe]
  split
  · exact hrecord.note rfl
  · exact hrecord

/-! ## The pin watcher -/

theorem Intact.createPin (h : p.Intact) (pin : Handle) : (p.createPin pin).2.Intact := by
  unfold Panel.createPin
  split
  · exact h
  · next store hcreate =>
    have hextend := h.extend (PinStore.create_ok hcreate).1
    simp only
    split
    · exact hextend.note rfl
    · exact hextend

theorem fits_createPin {pin : Handle} (h : p.createPin pin = (.ok (), q)) : q.store.Fits pin := by
  unfold createPin at h
  split at h
  · cases h
  · next store hcreate =>
    have hstore : q.store = store := by
      rw [← (Prod.mk.inj h).2]
      split <;> rfl
    rw [hstore]
    exact (PinStore.create_ok hcreate).2

theorem Intact.register (h : p.Intact) {pin : Handle} (hfits : p.store.Fits pin) :
    (p.register pin).Intact := by
  have hlist : ({ p with pins := { p.pins with
      list := p.pins.list ++ [⟨p.pins.registrations, pin, none⟩]
      registrations := p.pins.registrations + 1 } } : Panel L μ).Intact :=
    { h with
      watched := fun w hw => by
        rcases List.mem_append.1 hw with hw | hw
        · exact h.watched w hw
        · rw [List.mem_singleton.1 hw]
          exact hfits }
  exact (hlist.record rfl).note rfl

theorem Intact.newPin (h : p.Intact) (pin : Handle) : (p.newPin pin).2.Intact := by
  have hcreate := h.createPin pin
  unfold Panel.newPin
  split
  · next q heq =>
    rw [heq] at hcreate
    exact hcreate.register (fits_createPin heq)
  · exact hcreate

theorem Intact.unregister (h : p.Intact) (name : String) : (p.unregister name).2.Intact := by
  have hlist : ({ p with pins := { p.pins with
      list := p.pins.list.filter (·.pin.name != name) } } : Panel L μ).Intact :=
    { h with watched := fun w hw => h.watched w (List.mem_of_mem_filter hw) }
  exact hlist.record rfl

/-- A pass over pins that are there drops none of them. -/
theorem run_of_fits {store : PinStore} {list : List Watch} (h : ∀ w ∈ list, store.Fits w.pin) :
    (WatchPass.run store list).dropped = [] ∧
      (WatchPass.run store list).kept.map (·.pin) = list.map (·.pin) ∧
      (WatchPass.run store list).readings.any Reading.isFailed = false := by
  induction list with
  | nil => exact ⟨rfl, rfl, rfl⟩
  | cons w rest ih =>
    obtain ⟨hdropped, hkept, hreadings⟩ := ih fun w' hw => h w' (by simp [hw])
    obtain ⟨slot, -, hread⟩ := (h w (by simp)).readAs
    have hrun : WatchPass.run store (w :: rest) =
        WatchPass.visit store w (WatchPass.run store rest) := rfl
    rw [hrun]
    simp only [WatchPass.visit, hread]
    split
    all_goals
      refine ⟨hdropped, congrArg (w.pin :: ·) hkept, ?_⟩
      rw [List.any_cons, hreadings]
      rfl

theorem Intact.dropped (h : p.Intact) : p.readPins.1.dropped = [] :=
  (run_of_fits h.watched).1

theorem Intact.readPins (h : p.Intact) : p.readPins.2.Intact := by
  obtain ⟨hdropped, hkept, hreadings⟩ := run_of_fits h.watched
  have hlist : ({ p with pins := { p.pins with
      list := (WatchPass.run p.store p.pins.list).kept } } : Panel L μ).Intact :=
    { h with
      watched := fun w hw => by
        have hpin : w.pin ∈ p.pins.list.map (·.pin) := hkept ▸ List.mem_map_of_mem hw
        obtain ⟨w', hw', heq⟩ := List.mem_map.1 hpin
        exact heq ▸ h.watched w' hw' }
  refine (hlist.record (x := .pass _) hreadings).noteAll fun n hn => ?_
  rw [hdropped] at hn
  cases hn

theorem keeps_pollPins (hreact : ∀ l n p, Keeps p (react l n p).2) (p : Panel L μ) :
    Keeps p (p.pollPins react).2 := by
  intro h
  rw [pollPins_snd]
  refine keeps_walk.strand.finishPass ?_ ?_ _ _ h.readPins
  · exact fun q name => keeps_emit hreact q _ .pins name _
  · exact fun q n => keeps_record rfl q

theorem keeps_updatePins (hreact : ∀ l n p, Keeps p (react l n p).2) (p : Panel L μ) :
    Keeps p (p.updatePins react).2 := by
  unfold updatePins
  split
  · exact keeps_pollPins hreact p
  · exact keeps_walk.refl p

/-! ## The status watcher -/

theorem Intact.pollSource (h : p.Intact) : p.pollSource.2.Intact := by
  have hsource : ({ p with status := { p.status with
      source := (p.status.source.poll p.cell).2 } } : Panel L μ).Intact :=
    h.of_eq rfl rfl rfl rfl rfl
  exact hsource.record rfl

theorem keeps_updateStatus (hreact : ∀ l n p, Keeps p (react l n p).2) (p : Panel L μ) :
    Keeps p (p.updateStatus react) := by
  intro h
  rw [updateStatus_eq]
  split
  · refine keeps_walk.strand.acceptSnapshot ?_ ?_ _ _ h.pollSource
    · exact fun q s hq => hq.of_eq rfl rfl rfl rfl rfl
    · exact fun q e => keeps_emit hreact q _ .status e.name _
  · exact h.pollSource.note rfl

/-! ## Elements -/

/-- Pins were made, and nothing failed that would be noted. -/
structure Makes (b b' : Binding) : Prop where
  pins : b.store.Extends b'.store
  notes : ∀ n ∈ b'.notes, n ∈ b.notes ∨ n.isPinFailure = false

theorem makes_refl (b : Binding) : Makes b b := ⟨.refl _, fun _ h => .inl h⟩

theorem Makes.trans {b₁ b₂ b₃ : Binding} (h : Makes b₁ b₂) (h' : Makes b₂ b₃) : Makes b₁ b₃ where
  pins := h.pins.trans h'.pins
  notes n hn := by
    rcases h'.notes n hn with hn | hn
    · exact h.notes n hn
    · exact .inr hn

theorem makes_bindPin {b b' : Binding} {pin : Handle} (h : b.bindPin pin = .ok b') :
    Makes b b' ∧ b'.store.Fits pin := by
  unfold Binding.bindPin at h
  split at h
  · cases h
  · next store hcreate =>
    obtain ⟨hext, hfits⟩ := PinStore.create_ok hcreate
    cases h
    refine ⟨⟨hext, fun n hn => ?_⟩, hfits⟩
    simp only at hn
    split at hn
    · exact .inl hn
    · rcases List.mem_append.1 hn with hn | hn
      · exact .inl hn
      · rw [List.mem_singleton.1 hn]
        exact .inr rfl

theorem makes_bindPins (pins : List Handle) (b : Binding) :
    Makes b (b.bindPins pins).2 ∧
      ((b.bindPins pins).1 = none → ∀ pin ∈ pins, (b.bindPins pins).2.store.Fits pin) := by
  induction pins generalizing b with
  | nil => exact ⟨makes_refl b, fun _ => nofun⟩
  | cons pin rest ih =>
    rw [Binding.bindPins]
    split
    · exact ⟨makes_refl b, nofun⟩
    · next b' hb =>
      obtain ⟨hmakes, hfits⟩ := makes_bindPin hb
      obtain ⟨hrest, hrestFits⟩ := ih b'
      refine ⟨hmakes.trans hrest, fun hnone pin' hpin => ?_⟩
      rcases List.mem_cons.1 hpin with rfl | hpin
      · exact hfits.mono hrest.pins
      · exact hrestFits hnone pin' hpin

theorem exists_takeName (b : Binding) (props : Props) (naming : Option Naming) :
    ∃ binder, (b.takeName props naming).2 = { b with binder } := by
  cases naming with
  | none => exact ⟨b.binder, rfl⟩
  | some naming => exact ⟨(b.binder.baseName props.pinName naming).2, rfl⟩

/-- Making an element makes its pins. -/
theorem makes_build (b : Binding) (tag : String) (props : Props) (now : Nanos) :
    Makes b (b.build tag props now).2 ∧
      ∀ e, (b.build tag props now).1 = .ok e → e.Seated (b.build tag props now).2.store := by
  unfold Binding.build
  split
  · exact ⟨makes_refl b, fun e he => by cases he⟩
  · next t _ =>
    split
    · exact ⟨makes_refl b, fun e he => by cases he⟩
    · next design hdesign =>
      have hname : Makes b (b.takeName props design.naming).2 := by
        obtain ⟨binder, heq⟩ := exists_takeName b props design.naming
        rw [heq]
        exact ⟨.refl _, fun _ h => .inl h⟩
      simp only [Binding.realize]
      obtain ⟨hpins, hfits⟩ := makes_bindPins (t.blueprint props (b.takeName props design.naming).1)
        (b.takeName props design.naming).2
      split
      · next b' heq =>
        rw [heq] at hpins hfits
        refine ⟨hname.trans hpins, fun e he => ?_⟩
        cases he
        refine ⟨Element.wired_element hdesign _ _, ?_⟩
        rw [(Design.pins_eq_blueprint hdesign).2]
        exact hfits rfl
      · next e b' heq =>
        rw [heq] at hpins
        exact ⟨hname.trans hpins, fun e he => by cases he⟩

theorem Intact.adopt (h : p.Intact) {b : Binding} (hb : Makes p.binding b) :
    (p.adopt b).Intact := by
  have hbinder : ({ p with store := b.store, binder := b.binder } : Panel L μ).Intact :=
    (h.extend hb.pins).of_eq rfl rfl rfl rfl rfl
  refine hbinder.noteAll fun n hn => ?_
  rcases hb.notes n hn with hn | hn
  · cases hn
  · exact hn

theorem Intact.bindPin (h : p.Intact) (pin : Handle) : (p.bindPin pin).2.Intact := by
  unfold Panel.bindPin
  split
  · next b hb => exact h.adopt (makes_bindPin hb).1
  · exact h

theorem Intact.attachElement (h : p.Intact) {element : Element} (he : element.Seated p.store)
    (parent : Option Nat) : (p.attachElement parent element).2.Intact := by
  unfold Panel.attachElement
  split
  · next id forest hadd =>
    exact { h with
      planted := h.planted.attach hadd
      seated := Forest.forall_attach h.seated he hadd }
  · exact h

theorem Intact.addBuilt (h : p.Intact) (parent : Option Nat) (tag : String) (props : Props) :
    (p.addBuilt parent tag props).2.Intact := by
  obtain ⟨hmakes, hseated⟩ := makes_build p.binding tag props p.now
  have hadopt := h.adopt hmakes
  unfold Panel.addBuilt
  split
  · next element q heq =>
    obtain ⟨hresult, rfl⟩ := Prod.mk.inj heq
    exact hadopt.attachElement (hseated element hresult) parent
  · next e q heq =>
    obtain ⟨-, rfl⟩ := Prod.mk.inj heq
    exact hadopt

theorem Intact.addElement (h : p.Intact) (parent : Option Nat) (tag : String) (props : Props) :
    (p.addElement parent tag props).2.Intact := by
  unfold Panel.addElement
  split
  · split
    · exact h.addBuilt _ tag props
    · exact h
  · exact h.addBuilt none tag props

theorem Intact.setElement (h : p.Intact) {id : Nat} {element : Element}
    (he : element.Seated p.store) :
    ({ p with driver := { p.driver with forest := p.driver.forest.setElement id element } } :
      Panel L μ).Intact :=
  { h with
    planted := h.planted.setElement id element
    seated := Forest.forall_setElement h.seated he id }

theorem Intact.actOn (h : p.Intact) (id : Nat) (action : UserAction) (times : Nat) :
    (p.actOn id action times).2.Intact := by
  unfold Panel.actOn
  split
  · exact h
  · exact h
  · next element heq =>
    obtain ⟨e, he, hact⟩ := Option.bind_eq_some_iff.1 heq
    exact h.setElement ((Element.actTimes_sameWiring hact).seated (h.seated id e he))

/-- The round of updates of an intact panel. -/
theorem Intact.rounded (h : p.Intact) :
    Forest.Rounded p.driver.forest p.store p.now p.driver.forest.traversal
      ⟨p.driver.forest, ⟨p.store, []⟩, {}, []⟩ (p.driver.forest.update p.store p.now) := by
  obtain ⟨hnodup, hlt⟩ := Forest.valid_of_perm h.planted (.refl _)
  exact Forest.rounded_updateIn p.now hnodup hlt h.seated

/-- An update of all elements brings all of them up to date. -/
theorem Intact.count (h : p.Intact) : p.updateElements.1 = ⟨p.driver.forest.size, 0⟩ := by
  have hcount := h.rounded.count
  rw [(Forest.traversal_perm h.planted).length_eq, List.length_range, Nat.zero_add] at hcount
  exact hcount

/-- A round leaves the elements where they are, wired as they are. -/
theorem Intact.forest (h : p.Intact) :
    p.updateElements.2.driver.forest.Planted ∧
      p.updateElements.2.driver.forest.size = p.driver.forest.size ∧
      ∀ id e, p.updateElements.2.driver.forest.element? id = some e → e.Seated p.store := by
  refine Forest.forest_foldl_visit (P := fun f => f.Planted ∧ f.size = p.driver.forest.size ∧
    ∀ id e, f.element? id = some e → e.Seated p.store) ?_ _ ⟨h.planted, rfl, h.seated⟩
  rintro f id e view ⟨hplanted, hsize, hseated⟩ he
  refine ⟨hplanted.setElement _ _, (f.size_setElement _ _).trans hsize, ?_⟩
  exact Forest.forall_setElement hseated
    ((e.update_sameWiring p.now view).seated (hseated id e he)) id

theorem Intact.updateElements (h : p.Intact) : p.updateElements.2.Intact := by
  obtain ⟨hplanted, -, hseated⟩ := h.forest
  have hround := h.rounded
  have hext := hround.tracks.pins
  have hchanged : ({ p with
      store := (p.driver.forest.update p.store p.now).view.store
      driver := { p.driver with forest := (p.driver.forest.update p.store p.now).forest } } :
        Panel L μ).Intact :=
    { h.extend hext with
      planted := hplanted
      seated := fun id e he => (hseated id e he).mono hext }
  refine hchanged.noteAll fun n hn => ?_
  rcases hround.notes n hn with hn | ⟨pin, value, rfl⟩
  · cases hn
  · rfl

/-! ## Runs -/

theorem keeps_tickPins (hreact : ∀ l n p, Keeps p (react l n p).2) (p : Panel L μ) :
    Keeps p (p.tickPins react).2 := by
  unfold tickPins
  split
  · exact keeps_pollPins hreact p
  · exact keeps_walk.refl p

/-- A tick ends with an update of the elements of an intact panel. -/
theorem exists_tick (hreact : ∀ l n p, Keeps p (react l n p).2) (h : p.Intact) :
    ∃ q : Panel L μ, q.Intact ∧ (p.tick react).1.elements = q.updateElements.1 ∧
      (p.tick react).2 = q.updateElements.2 := by
  have hstatus : (if p.driver.hasStatus then p.updateStatus react else p).Intact := by
    split
    · exact keeps_updateStatus hreact p h
    · exact h
  exact ⟨_, keeps_tickPins hreact _ hstatus, rfl, rfl⟩

end Panel

/-- The operation neither removes a pin nor watches one that may not exist. -/
def Operation.sparesPins {L μ : Type} : Operation L μ → Bool
  | removePin _ | register _ => false
  | _ => true

namespace Panel

variable {L μ : Type} {p q : Panel L μ} {react : Reaction L μ}

theorem keeps_keepStore {result : Except PinError PinStore}
    (hext : ∀ store, result = .ok store → p.store.Extends store) :
    Keeps p (Operation.keepStore p result) := by
  intro h
  cases result with
  | error e => exact h
  | ok store => exact h.extend (hext store rfl)

theorem keeps_perform (hreact : ∀ l n p, Keeps p (react l n p).2) {op : Operation L μ}
    (hop : op.sparesPins = true) (p : Panel L μ) : Keeps p (op.perform react p) := by
  intro h
  cases op with
  | removePin | register => cases hop
  | createPin pin => exact h.createPin pin
  | writePin name value => exact keeps_keepStore (fun _ => PinStore.write_ok) h
  | drivePin name value => exact keeps_keepStore (fun _ => PinStore.drive_ok) h
  | newPin pin => exact h.newPin pin
  | unregister name => exact h.unregister name
  | pollPins => exact keeps_pollPins hreact p h
  | updatePins => exact keeps_updatePins hreact p h
  | enablePins driven => exact keeps_walk.chores (chores_enablePins p driven) h
  | disablePins => exact keeps_walk.chores (chores_disablePins p) h
  | setPinsEnabled enabled => exact keeps_walk.chores (chores_setPinsEnabled p enabled) h
  | updateStatus => exact keeps_updateStatus hreact p h
  | requestReload => exact keeps_emitAll hreact p .reload .status _ h
  | setPolicy policy => exact h.chore (.policy policy)
  | startStatus driven => exact keeps_walk.chores (chores_startClock p _ driven) h
  | stopStatus => exact keeps_walk.chores (chores_stopClock p _) h
  | subscribe channel filter listener =>
    exact ((h.setBus channel _).record rfl).note rfl
  | unsubscribe channel id => exact h.unsubscribe channel id
  | clear channel => exact (h.setBus channel _).record rfl
  | emit channel name notice => exact keeps_emit hreact p .request channel name notice h
  | tick =>
    obtain ⟨q, hq, -, heq⟩ := exists_tick hreact h
    rw [Operation.perform, heq]
    exact hq.updateElements
  | startDriver driven => exact keeps_walk.chores (chores_startDriver p driven) h
  | stopDriver => exact keeps_walk.chores (chores_stopClock p _) h
  | bindPin pin => exact h.bindPin pin
  | addElement parent tag props => exact h.addElement parent tag props
  | addBuilt parent tag props => exact h.addBuilt parent tag props
  | updateElements => exact h.updateElements
  | actOn id action times => exact h.actOn id action times
  | publish | editSnapshot | failSource => exact h.chore (.cell _)
  | freshBinder | takeName | takeCreated => exact h.chore (.binder _)
  | remember change => exact h.chore (.memory _)

theorem intact_new (setup : Setup) (memory : μ) : (Panel.new setup memory : Panel L μ).Intact := by
  have hnew : ∀ p : Panel L μ, p.Intact →
      (if setup.attachStatus then p.attachStatus else p).Intact := by
    intro p hp
    split
    · exact keeps_walk.chores (chores_attachStatus p) hp
    · exact hp
  refine hnew _ ⟨Forest.planted_empty, fun _ _ he => ?_, fun _ hw => ?_, fun _ hn => ?_,
    fun _ hx => ?_⟩
  · cases he
  · cases hw
  · exact absurd hn (Array.not_mem_empty _)
  · cases hx

/-- The listeners neither remove pins nor watch any that may not exist. -/
def SparesPins (conduct : Conduct L μ) : Prop :=
  ∀ l n p, (conduct l n p).All (fun _ op => op.sparesPins = true) p

theorem closed_keeps (hreact : ∀ l n p, Keeps p (react l n p).2) :
    Closed react (fun _ op => op.sparesPins = true) (Keeps (L := L) (μ := μ)) where
  toWalk := keeps_walk
  perform hop := keeps_perform hreact hop _

theorem keeps_react {conduct : Conduct L μ} (h : SparesPins conduct) (depth : Nat) (l : L)
    (n : Notice) (p : Panel L μ) : Keeps p (conduct.react depth l n p).2 :=
  Closed.reaction keeps_walk.refl h (fun hreact => closed_keeps hreact) depth l n p

/-- **As long as no pin is removed, none is missing**: on every panel that comes of a
run in which pins are only watched once they are made, each handle of an element
and of the watch list fits the store. So an update brings all elements up to
date, be it in a tick or not, a pass drops nothing, and throughout the run no
element failed and no pin could not be read. -/
theorem run_intact {conduct : Conduct L μ} (h : SparesPins conduct) (depth : Nat) (setup : Setup)
    (memory : μ) (steps : List (Step L μ))
    (hsteps : ∀ op, .operation op ∈ steps → op.sparesPins = true) :
    let react := conduct.react depth
    let p := (Panel.new setup memory).run react steps
    (∀ id e, p.driver.forest.element? id = some e → ∀ pin ∈ e.pins, p.store.Fits pin) ∧
    (∀ w ∈ p.pins.list, p.store.Fits w.pin) ∧
    p.updateElements.1 = ⟨p.driver.forest.size, 0⟩ ∧
    (p.tick react).1.elements = ⟨(p.tick react).2.driver.forest.size, 0⟩ ∧
    p.readPins.1.dropped = [] ∧ p.readPins.2.pins.list.map (·.pin) = p.pins.list.map (·.pin) ∧
    (∀ n ∈ p.journal, n.isPinFailure = false) ∧ (∀ x ∈ p.past, x.isFailedPass = false) := by
  intro react p
  have hreact : ∀ l n q, Keeps q (react l n q).2 := keeps_react h depth
  have hp : p.Intact := (closed_keeps hreact).run (fun _ => ⟨rfl, rfl, rfl⟩) steps
    (fun op hop _ => hsteps op hop) _ (intact_new setup memory)
  obtain ⟨q, hq, hcount, hpanel⟩ := exists_tick hreact hp
  refine ⟨fun id e he => (hp.seated id e he).fits, hp.watched, hp.count, ?_, hp.dropped,
    (run_of_fits hp.watched).2.1, hp.journal, hp.passes⟩
  rw [hcount, hpanel, hq.count, hq.forest.2.1]

/-- A listener that makes another pin and has the machine drive it. -/
def helpful : Conduct Unit Unit := fun _ _ _ =>
  .perform (.newPin ⟨"spare", .input, .bit⟩) fun _ =>
    .perform (.drivePin "spare" (.bit true)) fun _ =>
      .perform .tick fun _ => .finish .returned

/-- A lamp, a button that is pressed, and ticks. -/
def lampSteps : List (Step Unit Unit) :=
  [.operation (.subscribe .pins .any ()), .operation (.addElement none "led" {}),
    .operation (.addElement none "button" { pinName := some "stop" }),
    .operation (.newPin ⟨"stop", .output, .bit⟩), .operation (.actOn 1 .press 1),
    .operation .tick, .operation .pollPins]

theorem run_intact_lampSteps :
    let p := (Panel.new {} ()).run (helpful.react 2) lampSteps
    SparesPins helpful ∧ (∀ op, .operation op ∈ lampSteps → op.sparesPins = true) ∧
      p.updateElements.1 = ⟨p.driver.forest.size, 0⟩ ∧ p.driver.forest.size = 2 ∧
      p.readPins.1.dropped = [] := by
  intro p
  have h : SparesPins helpful :=
    fun _ _ _ => ⟨rfl, fun _ => ⟨rfl, fun _ => ⟨rfl, fun _ => trivial⟩⟩⟩
  have hsteps : ∀ op, .operation op ∈ lampSteps → op.sparesPins = true := by
    intro op hop
    simp [lampSteps] at hop
    rcases hop with rfl | rfl | rfl | rfl | rfl | rfl | rfl <;> rfl
  obtain ⟨-, -, hcount, -, hdropped, -⟩ := run_intact h 2 {} () lampSteps hsteps
  exact ⟨h, hsteps, hcount, by rfl, hdropped⟩

end Panel

end MachinePanel
