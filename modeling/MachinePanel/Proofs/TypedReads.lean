/-
The types of what is read through a view. As long as only the view writes to the
store, what it remembers is what the store holds (`Mirrors`), so that a read gives
what the store has under the name. But only the first access to a name asks for the
type that the handle declares. After that the name alone is looked up, and a handle of
another type gets a value that is not of its type, where the store would refuse it
(`read_eq`).

So a read is typed, and is what a read of the store itself would give, unless the pin
has another type than the handle declares and an earlier access to its name has
succeeded (`read_typed_iff`).
-/
import MachinePanel.Proofs.Rounds

namespace MachinePanel

namespace PinView

/-- What may be asked of a view. -/
inductive Access where
  | read (pin : Handle)
  | write (pin : Handle) (value : Value)

namespace Access

/-- The name of the pin. -/
def name : Access → String
  | read pin | write pin _ => pin.name

/-- The view that the access leaves behind if it succeeds. -/
def result? (view : PinView) : Access → Option PinView
  | read pin => (view.read pin).toOption.map Prod.snd
  | write pin value => (view.write pin value).toOption

/-- The view after the access; one that fails leaves it as it was. -/
def perform (view : PinView) (access : Access) : PinView :=
  (access.result? view).getD view

end Access

/-- The view after several accesses. -/
def performAll (view : PinView) (accesses : List Access) : PinView :=
  accesses.foldl Access.perform view

/-- The names of the pins of the accesses that succeed. -/
def answered (view : PinView) : List Access → List String
  | [] => []
  | access :: rest =>
    if (access.result? view).isSome then access.name :: (access.perform view).answered rest
    else (access.perform view).answered rest

/-- An answer to a read is of the declared type, and there is none if the pin has another type. -/
structure Typed (store : PinStore) (pin : Handle) (answer : Except PinError Value) : Prop where
  declared : ∀ value, answer = .ok value → value.type = pin.type
  mismatch : ∀ slot, store.slot? pin.name = some slot → slot.type ≠ pin.type →
    answer = .error (.typeMismatch pin.name pin.type slot.type)

variable {store : PinStore} {view view' : PinView} {pin : Handle} {value : Value} {name : String}

/-! ## What a view remembers -/

/-- What the view remembers is what its store holds, and its store has the pins of
`store`, with their types. -/
structure Mirrors (store : PinStore) (view : PinView) : Prop where
  types : ∀ name, (view.store.slot? name).map Slot.type = (store.slot? name).map Slot.type
  seen : ∀ name value, view.seen? name = some value → view.store.read name = .ok value

theorem mirrors_start (store : PinStore) : Mirrors store ⟨store, []⟩ where
  types _ := rfl
  seen := nofun

theorem read_of_readAs {store : PinStore} (h : store.readAs pin = .ok value) :
    store.read pin.name = .ok value := by
  unfold PinStore.readAs at h
  split at h
  · cases h
  · next hread =>
    split at h
    · cases h
      exact hread
    · cases h

/-- What a successful read has seen, it has seen before or found in the store. -/
theorem Mirrors.of_read (h : Mirrors store view) (hread : view.read pin = .ok (value, view')) :
    Mirrors store view' := by
  have hstore := store_of_read hread
  refine ⟨by rw [hstore]; exact h.types, fun name seen hseen => ?_⟩
  rw [hstore]
  unfold PinView.read at hread
  split at hread
  · cases hread
    exact h.seen name seen hseen
  · split at hread
    · next hfound =>
      cases hread
      by_cases hname : name = pin.name
      · subst hname
        rw [seen?_remember_self] at hseen
        cases hseen
        exact read_of_readAs hfound
      · rw [seen?_remember_other _ hname] at hseen
        exact h.seen name seen hseen
    · cases hread

/-- A successful write is remembered as it went to the store. -/
theorem Mirrors.of_write (h : Mirrors store view) (hwrite : view.write pin value = .ok view') :
    Mirrors store view' := by
  obtain ⟨store', hstore, rfl⟩ := exists_of_write hwrite
  refine ⟨fun name => ?_, fun name seen hseen => ?_⟩
  · rw [← h.types name]
    obtain ⟨slot, hslot, -, htype, rfl⟩ := PinStore.exists_of_write hstore
    by_cases hname : name = pin.name
    · subst hname
      simp only [remember, PinStore.slot?_put_self, hslot, Option.map_some, Option.some.injEq]
      exact htype
    · rw [remember, PinStore.slot?_put_other _ hname]
  · rw [remember, PinStore.read_of_write hstore]
    by_cases hname : name = pin.name
    · subst hname
      rw [seen?_remember_self] at hseen
      cases hseen
      exact if_pos rfl
    · rw [seen?_remember_other _ hname] at hseen
      rw [if_neg hname]
      exact h.seen name seen hseen

theorem Mirrors.perform (h : Mirrors store view) (access : Access) :
    Mirrors store (access.perform view) := by
  cases access with
  | read pin =>
    simp only [Access.perform, Access.result?]
    cases hread : view.read pin with
    | error e => exact h
    | ok r => exact h.of_read hread
  | write pin value =>
    simp only [Access.perform, Access.result?]
    cases hwrite : view.write pin value with
    | error e => exact h
    | ok view' => exact h.of_write hwrite

theorem Mirrors.performAll (h : Mirrors store view) (accesses : List Access) :
    Mirrors store (view.performAll accesses) := by
  induction accesses generalizing view with
  | nil => exact h
  | cons access rest ih => exact ih (h.perform access)

/-- **A read gives what the store has**, but only a name that has not been seen is read with
regard to the type. -/
theorem Mirrors.read_eq (h : Mirrors store view) (pin : Handle) :
    (view.read pin).map Prod.fst =
      if (view.seen? pin.name).isSome then view.store.read pin.name else view.store.readAs pin := by
  unfold PinView.read
  cases hseen : view.seen? pin.name with
  | some value =>
    rw [h.seen _ _ hseen]
    rfl
  | none =>
    cases view.store.readAs pin with
    | ok value => rfl
    | error e => rfl

/-! ## What has been seen -/

theorem isSome_seen?_remember (view : PinView) (pin name : String) (value : Value) :
    ((view.remember pin value).seen? name).isSome ↔ (view.seen? name).isSome ∨ pin = name := by
  by_cases hname : name = pin
  · subst hname
    simp [seen?_remember_self]
  · rw [seen?_remember_other _ hname]
    simp [Ne.symm hname]

theorem isSome_seen?_perform (view : PinView) (access : Access) (name : String) :
    ((access.perform view).seen? name).isSome ↔
      (view.seen? name).isSome ∨ (access.result? view).isSome ∧ access.name = name := by
  cases access with
  | read pin =>
    simp only [Access.perform, Access.result?, Access.name, PinView.read]
    cases hseen : view.seen? pin.name with
    | some value =>
      -- A name that has been seen is not remembered again.
      have himp : pin.name = name → (view.seen? name).isSome := by
        rintro rfl
        simp [hseen]
      simpa [Except.toOption] using himp
    | none =>
      cases view.store.readAs pin with
      | ok value => simp [Except.toOption, isSome_seen?_remember]
      | error e => simp [Except.toOption]
  | write pin value =>
    simp only [Access.perform, Access.result?, Access.name, PinView.write]
    cases view.store.write pin.name value with
    | ok store' =>
      have hremember := isSome_seen?_remember { view with store := store' } pin.name name value
      simpa [Except.toOption, seen?] using hremember
    | error e => simp [Except.toOption]

/-- A name has been seen once an access to it has succeeded. -/
theorem isSome_seen?_performAll (view : PinView) (accesses : List Access) (name : String) :
    ((view.performAll accesses).seen? name).isSome ↔
      (view.seen? name).isSome ∨ name ∈ view.answered accesses := by
  induction accesses generalizing view with
  | nil => simp [performAll, answered]
  | cons access rest ih =>
    have hrest := ih (access.perform view)
    rw [isSome_seen?_perform, or_assoc] at hrest
    refine hrest.trans (or_congr_right ?_)
    by_cases hsome : (access.result? view).isSome = true
    · simp [answered, hsome, eq_comm]
    · simp [answered, hsome]

/-! ## Rounds -/

theorem performAll_append (view : PinView) (accesses accesses' : List Access) :
    view.performAll (accesses ++ accesses') = (view.performAll accesses).performAll accesses' :=
  List.foldl_append ..

/-- All that an element does with a view is to access it. -/
theorem exists_accesses_run {α : Type} (program : PinProgram α) (view : PinView) :
    ∃ accesses, (program.run view).view = view.performAll accesses := by
  induction program generalizing view with
  | done element unknownImage => exact ⟨[], rfl⟩
  | read pin failed next ih =>
    simp only [PinProgram.run, PinView.reading]
    split
    · next value view' hread =>
      obtain ⟨accesses, hrest⟩ := ih value view'
      refine ⟨.read pin :: accesses, hrest.trans ?_⟩
      simp [performAll, Access.perform, Access.result?, hread, Except.toOption]
    · exact ⟨[], rfl⟩
  | write pin value failed next ih =>
    simp only [PinProgram.run, PinView.writing]
    split
    · next view' hwrite =>
      obtain ⟨accesses, hrest⟩ := ih view'
      refine ⟨.write pin value :: accesses, hrest.trans ?_⟩
      simp [performAll, Access.perform, Access.result?, hwrite, Except.toOption]
    · exact ⟨[], rfl⟩

/-- Whatever the elements do that have their turns first, the view of a round is one on its
store after some accesses. -/
theorem exists_accesses_updateIn (f : Forest) (order : List Nat) (store : PinStore) (now : Nanos) :
    ∃ accesses, (f.updateIn order store now).view = (mk store []).performAll accesses := by
  have hround : ∀ round : Forest.Round,
      ∃ accesses, (order.foldl (Forest.Round.visit now) round).view =
        round.view.performAll accesses := by
    induction order with
    | nil => exact fun _ => ⟨[], rfl⟩
    | cons id rest ih =>
      intro round
      obtain ⟨later, hlater⟩ := ih (Forest.Round.visit now round id)
      have hturn : ∃ accesses, (Forest.Round.visit now round id).view =
          round.view.performAll accesses := by
        unfold Forest.Round.visit
        split
        · exact ⟨[], rfl⟩
        · next e _ =>
          rw [Element.update_eq_run]
          exact exists_accesses_run _ _
      obtain ⟨first, hfirst⟩ := hturn
      exact ⟨first ++ later, by rw [List.foldl_cons, hlater, hfirst, performAll_append]⟩
  exact hround _

/-! ## Typed answers -/

/-- A pin has the type that it had when the view was made. -/
theorem Mirrors.exists_slot (h : Mirrors store view) {slot : Slot}
    (hslot : store.slot? name = some slot) :
    ∃ slot', view.store.slot? name = some slot' ∧ slot'.type = slot.type := by
  have htypes := h.types name
  rw [hslot, Option.map_some] at htypes
  exact Option.map_eq_some_iff.1 htypes

/-- The store itself gives typed answers. -/
theorem Mirrors.typed_readAs (h : Mirrors store view) (pin : Handle) :
    Typed store pin (view.store.readAs pin) := by
  refine ⟨fun value hvalue => ?_, fun slot hslot hne => ?_⟩
  · unfold PinStore.readAs at hvalue
    split at hvalue
    · cases hvalue
    · split at hvalue
      · next htype =>
        cases hvalue
        exact htype
      · cases hvalue
  · obtain ⟨slot', hslot', htype⟩ := h.exists_slot hslot
    rw [← htype] at hne ⊢
    simp only [PinStore.readAs, PinStore.read, hslot']
    exact if_neg hne

/-- A handle of the right type, or of a pin that is missing, is read as the store reads it,
whether or not the name has been seen. -/
theorem Mirrors.read_eq_readAs (h : Mirrors store view)
    (htype : ∀ slot, store.slot? pin.name = some slot → slot.type = pin.type) :
    (view.read pin).map Prod.fst = view.store.readAs pin := by
  have hsame : view.store.read pin.name = view.store.readAs pin := by
    unfold PinStore.readAs PinStore.read
    cases hslot : view.store.slot? pin.name with
    | none => rfl
    | some slot =>
      have htypes := h.types pin.name
      rw [hslot, Option.map_some, eq_comm, Option.map_eq_some_iff] at htypes
      obtain ⟨slot', hslot', heq⟩ := htypes
      exact (if_pos (heq.symm.trans (htype slot' hslot'))).symm
  rw [h.read_eq, hsame, ite_self]

/-- A name that has been seen is answered with a value of the type that the pin has. -/
theorem Mirrors.read_seen (h : Mirrors store view) {slot : Slot}
    (hslot : store.slot? pin.name = some slot) (hseen : (view.seen? pin.name).isSome) :
    ∃ value, (view.read pin).map Prod.fst = .ok value ∧ value.type = slot.type := by
  obtain ⟨slot', hslot', htype⟩ := h.exists_slot hslot
  refine ⟨slot'.value, ?_, htype⟩
  rw [h.read_eq, if_pos hseen, PinStore.read, hslot']

/-- **A read is typed**, and is what a read of the store itself would give, unless the pin has
another type than the handle declares and an access to its name has succeeded before; then
it gives a value of the type that the pin has. This holds at any time in a round, since
all that elements do with a view is to access it. -/
theorem read_typed_iff (store : PinStore) :
    (∀ (accesses : List Access) (pin : Handle),
      let view := (mk store []).performAll accesses
      let answer := (view.read pin).map Prod.fst
      (Typed store pin answer ↔ answer = view.store.readAs pin) ∧
      (Typed store pin answer ↔ ∀ slot, store.slot? pin.name = some slot → slot.type ≠ pin.type →
        pin.name ∉ (mk store []).answered accesses) ∧
      ∀ slot, store.slot? pin.name = some slot → pin.name ∈ (mk store []).answered accesses →
        ∃ value, answer = .ok value ∧ value.type = slot.type) ∧
    ∀ (f : Forest) (order : List Nat) (now : Nanos),
      ∃ accesses, (f.updateIn order store now).view = (mk store []).performAll accesses := by
  refine ⟨fun accesses pin => ?_, fun f order now => exists_accesses_updateIn f order store now⟩
  intro view answer
  have hmirrors : Mirrors store view := (mirrors_start store).performAll accesses
  have hseen : (view.seen? pin.name).isSome ↔ pin.name ∈ (mk store []).answered accesses := by
    have h := isSome_seen?_performAll ⟨store, []⟩ accesses pin.name
    exact h.trans (or_iff_right (by simp [seen?]))
  have hdirect : answer = view.store.readAs pin → Typed store pin answer := fun heq => by
    rw [heq]
    exact hmirrors.typed_readAs pin
  have huntyped : ∀ slot, store.slot? pin.name = some slot → slot.type ≠ pin.type →
      Typed store pin answer → pin.name ∉ (mk store []).answered accesses := by
    intro slot hslot hne htyped hmem
    obtain ⟨value, hvalue, -⟩ := hmirrors.read_seen hslot (hseen.2 hmem)
    have hmismatch := htyped.mismatch slot hslot hne
    rw [show answer = .ok value from hvalue] at hmismatch
    cases hmismatch
  -- What is not seen is read from the store, and so is all that has the right type.
  have hagrees : (∀ slot, store.slot? pin.name = some slot → slot.type ≠ pin.type →
      pin.name ∉ (mk store []).answered accesses) → answer = view.store.readAs pin := by
    intro hfresh
    by_cases hmem : pin.name ∈ (mk store []).answered accesses
    · exact hmirrors.read_eq_readAs fun slot hslot =>
        Decidable.byContradiction fun hne => hfresh slot hslot hne hmem
    · have heq := hmirrors.read_eq pin
      rwa [if_neg (fun h => hmem (hseen.1 h))] at heq
  refine ⟨⟨fun htyped => hagrees fun slot hslot hne => huntyped slot hslot hne htyped, hdirect⟩,
    ⟨fun htyped slot hslot hne => huntyped slot hslot hne htyped, fun h => hdirect (hagrees h)⟩,
    fun slot hslot hmem => hmirrors.read_seen hslot (hseen.2 hmem)⟩

/-- It is not so that all reads are typed: a bit is asked for, and what has been read before
of the pin is a number. -/
theorem read_mistyped :
    ¬ ∀ (store : PinStore) (accesses : List Access) (pin : Handle),
      Typed store pin ((((mk store []).performAll accesses).read pin).map Prod.fst) := by
  intro h
  have htyped := h ⟨[("a", ⟨.input, .s32 0⟩)]⟩ [.read ⟨"a", .input, .s32⟩] ⟨"a", .input, .bit⟩
  have htype := htyped.declared (.s32 0) rfl
  cases htype

end PinView

end MachinePanel
