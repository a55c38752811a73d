/-
What becomes of the pins in a store. A handle fits a store that has a pin of its
name, direction and type (`Fits`), and goes on fitting whatever is made, written
or driven, since all this leaves directions and types alone (`Extends`). Only a
removal can end it.

Writes to different pins may change places: the store is the same afterwards,
its order included (`settle_comm`).
-/
import MachinePanel.Pin.Store

namespace MachinePanel.PinStore

variable {store store' : PinStore} {pin : Handle} {name : String} {slot : Slot} {value : Value}

/-- The pin of the handle exists, with its direction and type. -/
def Fits (store : PinStore) (pin : Handle) : Prop :=
  ∃ slot, store.slot? pin.name = some slot ∧ slot.direction = pin.direction ∧ slot.type = pin.type

/-- Every pin is still there, with its direction and type. -/
def Extends (store store' : PinStore) : Prop :=
  ∀ name slot, store.slot? name = some slot →
    ∃ slot', store'.slot? name = some slot' ∧ slot'.direction = slot.direction ∧
      slot'.type = slot.type

theorem Extends.refl (store : PinStore) : Extends store store :=
  fun _ slot h => ⟨slot, h, rfl, rfl⟩

theorem Extends.trans {s₁ s₂ s₃ : PinStore} (h : Extends s₁ s₂) (h' : Extends s₂ s₃) :
    Extends s₁ s₃ := by
  intro name slot hslot
  obtain ⟨slot₂, hslot₂, hdirection, htype⟩ := h name slot hslot
  obtain ⟨slot₃, hslot₃, hdirection', htype'⟩ := h' name slot₂ hslot₂
  exact ⟨slot₃, hslot₃, hdirection'.trans hdirection, htype'.trans htype⟩

theorem Fits.mono (h : store.Fits pin) (hext : Extends store store') : store'.Fits pin := by
  obtain ⟨slot, hslot, hdirection, htype⟩ := h
  obtain ⟨slot', hslot', hdirection', htype'⟩ := hext _ slot hslot
  exact ⟨slot', hslot', hdirection'.trans hdirection, htype'.trans htype⟩

/-! ## Making pins -/

theorem fits_put (store : PinStore) (pin : Handle) :
    (store.put pin.name ⟨pin.direction, pin.type.zero⟩).Fits pin :=
  ⟨_, slot?_put_self .., rfl, Value.type_zero pin.type⟩

theorem extends_put_new (h : store.slot? name = none) (slot : Slot) :
    Extends store (store.put name slot) := by
  intro other slot' hslot'
  have hne : other ≠ name := by
    rintro rfl
    rw [h] at hslot'
    cases hslot'
  exact ⟨slot', by rw [slot?_put_other store hne, hslot'], rfl, rfl⟩

theorem create_ok (h : store.create pin = .ok store') : Extends store store' ∧ store'.Fits pin := by
  unfold create at h
  split at h
  · cases h
  · split at h
    · next hnone =>
      cases h
      exact ⟨extends_put_new hnone _, fits_put store pin⟩
    · next slot hslot =>
      split at h
      · cases h
      · next htype =>
        split at h
        · cases h
        · next hdirection =>
          cases h
          exact ⟨.refl store, slot, hslot, Decidable.not_not.1 hdirection,
            Decidable.not_not.1 htype⟩

/-! ## Reading and writing -/

theorem Fits.readAs (h : store.Fits pin) :
    ∃ slot, store.slot? pin.name = some slot ∧ store.readAs pin = .ok slot.value := by
  obtain ⟨slot, hslot, -, htype⟩ := h
  refine ⟨slot, hslot, ?_⟩
  simp only [PinStore.readAs, PinStore.read, hslot]
  exact if_pos htype

theorem extends_put (h : store.slot? name = some slot) (htype : value.type = slot.type) :
    Extends store (store.put name { slot with value }) := by
  intro other slot' hslot'
  by_cases hother : other = name
  · subst hother
    rw [h] at hslot'
    cases hslot'
    exact ⟨_, slot?_put_self .., rfl, htype⟩
  · exact ⟨slot', by rw [slot?_put_other store hother, hslot'], rfl, rfl⟩

theorem assign_ok (h : store.slot? name = some slot)
    (hassign : store.assign name slot value = .ok store') : Extends store store' := by
  unfold assign at hassign
  split at hassign
  · next htype =>
    cases hassign
    exact extends_put h htype
  · cases hassign

theorem write_ok (h : store.write name value = .ok store') : Extends store store' := by
  unfold write at h
  split at h
  · cases h
  · next slot hslot =>
    split at h
    · exact assign_ok hslot h
    · cases h

/-- A write that succeeds has found an output of the type of the value, and has put the value
there. -/
theorem exists_of_write (h : store.write name value = .ok store') :
    ∃ slot, store.slot? name = some slot ∧ slot.direction.isWritable = true ∧
      value.type = slot.type ∧ store' = store.put name { slot with value } := by
  unfold write at h
  split at h
  · cases h
  · next slot hslot =>
    split at h
    · next hwritable =>
      unfold assign at h
      split at h
      · next htype =>
        cases h
        exact ⟨slot, hslot, hwritable, htype, rfl⟩
      · cases h
    · cases h

theorem read_of_write (h : store.write name value = .ok store') (other : String) :
    store'.read other = if other = name then .ok value else store.read other := by
  obtain ⟨slot, -, -, -, rfl⟩ := exists_of_write h
  by_cases hother : other = name
  · subst hother
    rw [if_pos rfl, read, slot?_put_self]
  · rw [if_neg hother, read, slot?_put_other store hother, read]

/-- A write takes no pin away and makes none. -/
theorem contains_of_write (h : store.write name value = .ok store') (other : String) :
    store'.contains other = store.contains other := by
  obtain ⟨slot, hslot, -, -, rfl⟩ := exists_of_write h
  by_cases hother : other = name
  · subst hother
    rw [contains_eq, contains_eq, slot?_put_self, hslot]
    rfl
  · rw [contains_eq, contains_eq, slot?_put_other store hother]

theorem drive_ok (h : store.drive name value = .ok store') : Extends store store' := by
  unfold drive at h
  split at h
  · cases h
  · next slot hslot => exact assign_ok hslot h

theorem Fits.write (h : store.Fits pin) (hdirection : pin.direction = .output)
    (htype : value.type = pin.type) :
    ∃ slot, store.slot? pin.name = some slot ∧
      store.write pin.name value = .ok (store.put pin.name { slot with value }) := by
  obtain ⟨slot, hslot, hslotDirection, hslotType⟩ := h
  refine ⟨slot, hslot, ?_⟩
  have hwritable : slot.direction.isWritable = true := by
    rw [hslotDirection, hdirection]
    rfl
  simp only [PinStore.write, hslot, assign]
  rw [if_pos hwritable, if_pos (htype.trans hslotType.symm)]

/-! ## Writes that may change places -/

/-- The store after a write, whether or not it succeeds. -/
def settle (store : PinStore) (w : Handle × Value) : PinStore :=
  match store.write w.1.name w.2 with
  | .ok store => store
  | .error _ => store

/-- The store after several writes. -/
def settleAll (store : PinStore) (writes : List (Handle × Value)) : PinStore :=
  writes.foldl settle store

theorem replace_comm {name other : String} (hne : name ≠ other) (slot slot' : Slot)
    (l : List (String × Slot)) :
    replace name slot (replace other slot' l) = replace other slot' (replace name slot l) := by
  induction l with
  | nil => rfl
  | cons p l ih =>
    obtain ⟨n, s⟩ := p
    by_cases hn : n = name
    · simp [replace, hn, hne]
    · by_cases hother : n = other
      · simp [replace, hother, Ne.symm hne]
      · simp [replace, hn, hother, ih]

theorem replace_self {l : List (String × Slot)} (h : l.lookup name = some slot) :
    replace name slot l = l := by
  induction l with
  | nil => rfl
  | cons p l ih =>
    obtain ⟨n, s⟩ := p
    by_cases hn : n = name
    · subst hn
      simp at h
      simp [replace, h]
    · have hb : (name == n) = false := by simpa using fun he => hn he.symm
      rw [List.lookup_cons, hb] at h
      simp [replace, hn, ih h]

/-- What a write makes of a pin: nothing, if the pin is not for it. -/
def settleSlot (slot : Slot) (value : Value) : Slot :=
  if slot.direction.isWritable = true ∧ value.type = slot.type then { slot with value } else slot

theorem settle_eq (store : PinStore) (w : Handle × Value) :
    store.settle w = match store.slot? w.1.name with
      | none => store
      | some slot => ⟨replace w.1.name (settleSlot slot w.2) store.slots⟩ := by
  cases hslot : store.slot? w.1.name with
  | none => simp only [settle, write, hslot]
  | some slot =>
    have hsame : (⟨replace w.1.name slot store.slots⟩ : PinStore) = store := by
      rw [replace_self hslot]
    have hcontains : store.contains w.1.name = true := by rw [contains_eq, hslot]; rfl
    simp only [settle, write, hslot, settleSlot, assign]
    by_cases hwritable : slot.direction.isWritable = true
    · by_cases htype : w.2.type = slot.type
      · simp [hwritable, htype, put, hcontains]
      · simp [hwritable, htype, hsame]
    · simp [hwritable, hsame]

theorem slot?_settle_other {w : Handle × Value} (hne : name ≠ w.1.name) :
    (store.settle w).slot? name = store.slot? name := by
  rw [settle_eq]
  cases store.slot? w.1.name with
  | none => rfl
  | some slot => exact lookup_replace_other hne _ _

/-- **Writes to different pins may change places.** -/
theorem settle_comm {w w' : Handle × Value} (hne : w.1.name ≠ w'.1.name) :
    (store.settle w).settle w' = (store.settle w').settle w := by
  rw [settle_eq (store.settle w), settle_eq (store.settle w'), slot?_settle_other hne,
    slot?_settle_other hne.symm, settle_eq store w, settle_eq store w']
  cases store.slot? w.1.name with
  | none => rfl
  | some slot =>
    cases store.slot? w'.1.name with
    | none => rfl
    | some slot' => exact congrArg PinStore.mk (replace_comm hne.symm _ _ _)

theorem settle_settleAll {w : Handle × Value} {writes : List (Handle × Value)}
    (hne : ∀ w' ∈ writes, w.1.name ≠ w'.1.name) (store : PinStore) :
    (store.settle w).settleAll writes = (store.settleAll writes).settle w := by
  induction writes generalizing store with
  | nil => rfl
  | cons w' rest ih =>
    have hrest := ih (fun w'' hw => hne w'' (by simp [hw])) (store.settle w')
    rw [← settle_comm (hne w' (by simp))] at hrest
    exact hrest

theorem settleAll_comm {writes writes' : List (Handle × Value)}
    (hne : ∀ w ∈ writes, ∀ w' ∈ writes', w.1.name ≠ w'.1.name) (store : PinStore) :
    (store.settleAll writes).settleAll writes' = (store.settleAll writes').settleAll writes := by
  induction writes generalizing store with
  | nil => rfl
  | cons w rest ih =>
    have hrest := ih (fun w' hw => hne w' (by simp [hw])) (store.settle w)
    rw [settle_settleAll (hne w (by simp))] at hrest
    exact hrest

end MachinePanel.PinStore
