/-
What an update of an element comes to in the course of a round. If its pins are
there, none of them fails, and then all depends on the values of its inputs
(`PinProgram.eval`). These are the ones the round began with: outputs are all
that is written meanwhile, so that inputs stay as they are, in the store as well
as in what the view remembers (`Tracks`). `run_eq_eval` puts this together. That
inputs read as the round found them holds even where pins are missing
(`reads_inputs`).
-/
import MachinePanel.Proofs.Designs
import MachinePanel.Proofs.StoreFacts

namespace MachinePanel

variable {α : Type}

/-- What a program comes to when no pin fails. -/
structure Outcome (α : Type) where
  element : α
  unknownImage : Option Value := none
  writes : List (Handle × Value) := []

namespace PinProgram

/-- Goes through a program with the values its pins have. -/
def eval (valueOf : Handle → Value) : PinProgram α → Outcome α
  | done element unknownImage => { element, unknownImage }
  | read pin _ next => (next (valueOf pin)).eval valueOf
  | write pin value _ next =>
    let rest := next.eval valueOf
    { rest with writes := (pin, value) :: rest.writes }

/-- What the reads of a program give, on a view of the pins. -/
def reads : PinProgram α → PinView → List (Handle × Except PinError Value)
  | done .., _ => []
  | read pin _ next, view =>
    match view.read pin with
    | .ok (value, view) => (pin, .ok value) :: (next value).reads view
    | .error e => [(pin, .error e)]
  | write pin value _ next, view =>
    match view.write pin value with
    | .ok view => next.reads view
    | .error _ => []

theorem Obeys.eval {inputs : List Handle} {signals : List (Handle × ScalarType)} {leaves : α → Prop}
    {program : PinProgram α} (h : program.Obeys inputs signals leaves) (valueOf : Handle → Value) :
    leaves (program.eval valueOf).element ∧
      ∀ w ∈ (program.eval valueOf).writes, (w.1, w.2.type) ∈ signals := by
  induction program with
  | done element unknownImage => exact ⟨h, nofun⟩
  | read pin failed next ih => exact ih _ (h.2.2 _)
  | write pin value failed next ih =>
    obtain ⟨hsignal, -, hnext⟩ := h
    obtain ⟨hleaves, hwrites⟩ := ih hnext
    refine ⟨hleaves, fun w hw => ?_⟩
    rcases List.mem_cons.1 hw with rfl | hw
    · exact hsignal
    · exact hwrites w hw

end PinProgram

/-- The value of a pin; one that is missing counts as zero. -/
def PinStore.valueOf (store : PinStore) (pin : Handle) : Value :=
  match store.slot? pin.name with
  | some slot => slot.value
  | none => pin.type.zero

theorem PinStore.valueOf_eq {store : PinStore} {pin : Handle} {slot : Slot}
    (h : store.slot? pin.name = some slot) : store.valueOf pin = slot.value := by
  rw [valueOf, h]

namespace PinView

variable {store : PinStore} {view view' : PinView} {pin : Handle} {value : Value}

/-- The view is one of a round that began with the store, and in which only
output pins have been written. -/
structure Tracks (store : PinStore) (view : PinView) : Prop where
  pins : store.Extends view.store
  inputs : ∀ name slot, store.slot? name = some slot → slot.direction = .input →
    view.store.slot? name = some slot
  seen : ∀ name slot, store.slot? name = some slot → slot.direction = .input →
    ∀ value, view.seen? name = some value → value = slot.value

theorem tracks_start (store : PinStore) : Tracks store ⟨store, []⟩ where
  pins := .refl store
  inputs _ _ h _ := h
  seen := nofun

theorem store_of_read (hread : view.read pin = .ok (value, view')) : view'.store = view.store := by
  unfold PinView.read at hread
  split at hread
  · cases hread
    rfl
  · split at hread
    · cases hread
      rfl
    · cases hread

/-- A write to a view goes to its store. -/
theorem store_of_write (h : view.write pin value = .ok view') :
    view.store.write pin.name value = .ok view'.store := by
  obtain ⟨store, hstore, rfl⟩ := exists_of_write h
  exact hstore

theorem exists_write_of_fits (h : view.store.Fits pin) (value : Value)
    (hdirection : pin.direction = .output) (htype : value.type = pin.type) :
    ∃ view', view.write pin value = .ok view' := by
  obtain ⟨slot, -, hwrite⟩ := h.write hdirection htype
  exact ⟨_, by rw [write, hwrite]⟩

/-- What has been read is seen from now on; of an input it is the value the round began with. -/
theorem Tracks.of_read (h : Tracks store view) (hread : view.read pin = .ok (value, view')) :
    Tracks store view' := by
  unfold PinView.read at hread
  split at hread
  · cases hread
    exact h
  · split at hread
    · next hstore =>
      cases hread
      refine ⟨h.pins, h.inputs, fun name slot hslot hinput seen hseen => ?_⟩
      by_cases hname : name = pin.name
      · subst hname
        rw [seen?_remember_self] at hseen
        simp only [PinStore.readAs, PinStore.read, h.inputs _ slot hslot hinput] at hstore
        split at hstore
        · cases hstore
          exact (Option.some.inj hseen).symm
        · cases hstore
      · rw [seen?_remember_other _ hname] at hseen
        exact h.seen name slot hslot hinput seen hseen
    · cases hread

/-- What can be written is no input. -/
theorem Tracks.of_write (h : Tracks store view) (hwrite : view.write pin value = .ok view') :
    Tracks store view' := by
  obtain ⟨store', hstore, rfl⟩ := exists_of_write hwrite
  have hne : ∀ name slot, store.slot? name = some slot → slot.direction = .input →
      name ≠ pin.name := by
    rintro name slot hslot hinput rfl
    simp [PinStore.write, h.inputs _ slot hslot hinput, hinput, Direction.isWritable] at hstore
  have hsettle : view.store.settle (pin, value) = store' := by
    simp only [PinStore.settle, hstore]
  refine ⟨h.pins.trans (PinStore.write_ok hstore), fun name slot hslot hinput => ?_,
    fun name slot hslot hinput seen hseen => ?_⟩
  · rw [remember, ← hsettle]
    exact (PinStore.slot?_settle_other (hne name slot hslot hinput)).trans
      (h.inputs name slot hslot hinput)
  · rw [seen?_remember_other _ (hne name slot hslot hinput)] at hseen
    exact h.seen name slot hslot hinput seen hseen

/-- An input reads as the round found it, whatever else has happened in the round. -/
theorem Tracks.read_input (h : Tracks store view) {slot : Slot}
    (hslot : store.slot? pin.name = some slot) (hinput : slot.direction = .input)
    (htype : slot.type = pin.type) : ∃ view', view.read pin = .ok (slot.value, view') := by
  unfold PinView.read
  cases hseen : view.seen? pin.name with
  | some value => exact ⟨view, by rw [h.seen _ slot hslot hinput value hseen]⟩
  | none =>
    have hread : view.store.readAs pin = .ok slot.value := by
      simp only [PinStore.readAs, PinStore.read, h.inputs _ slot hslot hinput]
      exact if_pos htype
    exact ⟨view.remember pin.name slot.value, by rw [hread]⟩

/-- An input pin reads as the round found it. -/
theorem Tracks.read (h : Tracks store view) (hfits : store.Fits pin)
    (hinput : pin.direction = .input) :
    ∃ view', view.read pin = .ok (store.valueOf pin, view') ∧ view'.store = view.store ∧
      Tracks store view' := by
  obtain ⟨slot, hslot, hdirection, htype⟩ := hfits
  obtain ⟨view', hread⟩ := h.read_input hslot (hdirection.trans hinput) htype
  exact ⟨view', by rw [hread, PinStore.valueOf_eq hslot], store_of_read hread, h.of_read hread⟩

/-- A write of an output pin leaves the inputs alone. -/
theorem Tracks.write (h : Tracks store view) (hfits : store.Fits pin)
    (houtput : pin.direction = .output) (htype : value.type = pin.type) :
    ∃ view', view.write pin value = .ok view' ∧
      view'.store = view.store.settle (pin, value) ∧ Tracks store view' := by
  obtain ⟨slot, -, hwrite⟩ := (hfits.mono h.pins).write houtput htype
  have hview : view.write pin value =
      .ok ({ view with store := view.store.settle (pin, value) }.remember pin.name value) := by
    simp only [PinView.write, PinStore.settle, hwrite]
  exact ⟨_, hview, rfl, h.of_write hview⟩

end PinView

namespace Element

variable {store store' : PinStore} {e e' : Element}

/-- The element is wired, and its pins are there. -/
structure Seated (store : PinStore) (e : Element) : Prop where
  wired : e.Wired
  fits : ∀ pin ∈ e.pins, store.Fits pin

theorem Seated.mono (h : e.Seated store) (hext : store.Extends store') : e.Seated store' :=
  ⟨h.wired, fun pin hpin => (h.fits pin hpin).mono hext⟩

theorem SameWiring.seated (hs : SameWiring e e') (h : e.Seated store) : e'.Seated store :=
  ⟨hs.wired h.wired, hs.pins ▸ h.fits⟩

/-- The element depends on the values of its inputs alone, and so do its writes. -/
def outcome (now : Nanos) (store : PinStore) (e : Element) : Outcome Element :=
  (e.program now).eval store.valueOf

end Element

/-- **A program comes to what the values of its inputs make of it**, if its pins are
there: its reads give these values, its writes succeed, and the view goes on
tracking the store that the round began with. -/
theorem PinProgram.run_eq_eval {store : PinStore} {view : PinView} {inputs : List Handle}
    {signals : List (Handle × ScalarType)} {leaves : α → Prop} {program : PinProgram α}
    (hobeys : program.Obeys inputs signals leaves)
    (hinputs : ∀ pin ∈ inputs, store.Fits pin ∧ pin.direction = .input)
    (hsignals : ∀ s ∈ signals, store.Fits s.1 ∧ s.1.direction = .output ∧ s.1.type = s.2)
    (h : view.Tracks store) :
    let o := program.eval store.valueOf
    (∃ view', program.run view = ⟨o.element, view', none, o.unknownImage⟩ ∧
      view'.store = view.store.settleAll o.writes ∧ view'.Tracks store) ∧
    ∀ r ∈ program.reads view,
      ∃ slot, store.slot? r.1.name = some slot ∧ r.2 = .ok slot.value := by
  induction program generalizing view with
  | done element unknownImage => exact ⟨⟨view, rfl, rfl, h⟩, nofun⟩
  | read pin failed next ih =>
    obtain ⟨hpin, -, hnext⟩ := hobeys
    obtain ⟨hfits, hinput⟩ := hinputs pin hpin
    obtain ⟨view₁, hread, hstore, htracks⟩ := h.read hfits hinput
    obtain ⟨hrun, hreads⟩ := ih _ (hnext _) htracks
    simp only [run, PinView.reading, reads, hread, eval]
    rw [hstore] at hrun
    refine ⟨hrun, fun r hr => ?_⟩
    rcases List.mem_cons.1 hr with rfl | hr
    · obtain ⟨slot, hslot, -⟩ := hfits
      exact ⟨slot, hslot, by rw [PinStore.valueOf_eq hslot]⟩
    · exact hreads r hr
  | write pin value failed next ih =>
    obtain ⟨hsignal, -, hnext⟩ := hobeys
    obtain ⟨hfits, houtput, htype⟩ := hsignals _ hsignal
    obtain ⟨view₁, hwrite, hstore, htracks⟩ := h.write hfits houtput htype.symm
    obtain ⟨hrun, hreads⟩ := ih hnext htracks
    simp only [run, PinView.writing, reads, hwrite, eval]
    rw [hstore] at hrun
    exact ⟨hrun, hreads⟩

namespace PinProgram

variable {store : PinStore} {view : PinView}

/-- Whatever a program does, the view goes on tracking the store that the round began with. -/
theorem tracks_run (program : PinProgram α) (h : view.Tracks store) :
    (program.run view).view.Tracks store := by
  induction program generalizing view with
  | done element unknownImage => exact h
  | read pin failed next ih =>
    simp only [run, PinView.reading]
    split
    · next hread => exact ih _ (h.of_read hread)
    · exact h
  | write pin value failed next ih =>
    simp only [run, PinView.writing]
    split
    · next hwrite => exact ih (h.of_write hwrite)
    · exact h

/-- Whatever a program does, its inputs read as the round found them. -/
theorem reads_inputs (program : PinProgram α) (h : view.Tracks store) :
    ∀ r ∈ program.reads view, ∀ slot, store.slot? r.1.name = some slot →
      slot.direction = .input → slot.type = r.1.type → r.2 = .ok slot.value := by
  induction program generalizing view with
  | done element unknownImage => nofun
  | read pin failed next ih =>
    intro r hr slot hslot hinput htype
    rw [reads] at hr
    split at hr
    · next value view' hread =>
      rcases List.mem_cons.1 hr with rfl | hr
      · obtain ⟨view'', hvalue⟩ := h.read_input hslot hinput htype
        rw [hvalue] at hread
        cases hread
        rfl
      · exact ih _ (h.of_read hread) r hr slot hslot hinput htype
    · next e hread =>
      obtain rfl := List.mem_singleton.1 hr
      obtain ⟨view'', hvalue⟩ := h.read_input hslot hinput htype
      rw [hvalue] at hread
      cases hread
  | write pin value failed next ih =>
    intro r hr
    rw [reads] at hr
    split at hr
    · next view' hwrite => exact ih (h.of_write hwrite) r hr
    · cases hr

end PinProgram

namespace Element

variable {store : PinStore} {view : PinView} {e : Element}

theorem Seated.inputs (h : e.Seated store) :
    ∀ pin ∈ e.inputs, store.Fits pin ∧ pin.direction = .input :=
  fun pin hpin => ⟨h.fits pin (mem_pins.2 (.inl hpin)), h.wired.inputs pin hpin⟩

theorem Seated.signals (h : e.Seated store) :
    ∀ s ∈ e.signals, store.Fits s.1 ∧ s.1.direction = .output ∧ s.1.type = s.2 :=
  fun s hs => ⟨h.fits s.1 (mem_pins.2 (.inr (List.mem_map_of_mem hs))), h.wired.signals s hs⟩

/-- The update of an element whose pins are there does not fail. -/
theorem Seated.update (h : e.Seated store) (now : Nanos) (hview : view.Tracks store) :
    ∃ view', e.update now view =
        ⟨(e.outcome now store).element, view', none, (e.outcome now store).unknownImage⟩ ∧
      view'.store = view.store.settleAll (e.outcome now store).writes ∧ view'.Tracks store := by
  rw [update_eq_run]
  exact (PinProgram.run_eq_eval (e.program_obeys now) h.inputs h.signals hview).1

theorem outputs_of_mem_writes (e : Element) (now : Nanos) (store : PinStore) :
    ∀ w ∈ (e.outcome now store).writes, w.1 ∈ e.outputs :=
  fun w hw => List.mem_map_of_mem (((e.program_obeys now).eval _).2 w hw)

end Element

end MachinePanel
