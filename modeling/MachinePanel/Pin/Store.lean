/-
The store of pins. A pin is made with a direction and a type and keeps both
until it is removed; the type is read off its value, which is only ever
replaced by one of the same type. Components read pins and write output pins;
the machine's side drives any pin.

`slot?` is the view of the store: `slot?_put_self` and `slot?_put_other` say
what an assignment does to it, `slot?_remove_self` and `slot?_remove_other`
what a removal does.
-/
import MachinePanel.Error
import MachinePanel.Pin.Handle
import MachinePanel.Pin.Name

namespace MachinePanel

/-- A pin in the store. -/
structure Slot where
  direction : Direction
  value : Value

/-- The type of a pin. -/
def Slot.type (s : Slot) : ScalarType :=
  s.value.type

/-- The pins by name, in the order they were made. -/
structure PinStore where
  slots : List (String × Slot) := []

namespace PinStore

/-- The pin of a name. -/
def slot? (store : PinStore) (name : String) : Option Slot :=
  store.slots.lookup name

/-- The pin exists. -/
def contains (store : PinStore) (name : String) : Bool :=
  (store.slot? name).isSome

/-- The number of pins. -/
def size (store : PinStore) : Nat :=
  store.slots.length

/-- The names of the pins, sorted. -/
def names (store : PinStore) : List String :=
  (store.slots.map (·.1)).mergeSort (fun a b => decide (a ≤ b))

/-- Replaces the slot of an existing name. -/
def replace (name : String) (slot : Slot) : List (String × Slot) → List (String × Slot)
  | [] => []
  | (n, s) :: rest => if n = name then (n, slot) :: rest else (n, s) :: replace name slot rest

/-- Puts a slot under a name, in the place of the old one or at the end. -/
def put (store : PinStore) (name : String) (slot : Slot) : PinStore :=
  if store.contains name then ⟨replace name slot store.slots⟩
  else ⟨store.slots ++ [(name, slot)]⟩

/-- Removes a pin, and says whether there was one. -/
def remove (store : PinStore) (name : String) : Bool × PinStore :=
  (store.contains name, ⟨store.slots.filter (·.1 != name)⟩)

/-- Makes a pin with the zero of its type. Making a pin again is allowed if
nothing about it is different; a different type is reported before a different
direction. -/
def create (store : PinStore) (pin : Handle) : Except PinError PinStore :=
  if !PinName.isValid pin.name then .error (.invalidName pin.name)
  else
    match store.slot? pin.name with
    | none => .ok (store.put pin.name ⟨pin.direction, pin.type.zero⟩)
    | some slot =>
      if slot.type ≠ pin.type then .error (.alreadyExists pin.name slot.type pin.type)
      else if slot.direction ≠ pin.direction then
        .error (.directionConflict pin.name slot.direction pin.direction)
      else .ok store

/-- The value of a pin. -/
def read (store : PinStore) (name : String) : Except PinError Value :=
  match store.slot? name with
  | none => .error (.notFound name)
  | some slot => .ok slot.value

/-- Gives an existing pin a value of its type. -/
def assign (store : PinStore) (name : String) (slot : Slot) (value : Value) :
    Except PinError PinStore :=
  if value.type = slot.type then .ok (store.put name { slot with value })
  else .error (.typeMismatch name slot.type value.type)

/-- A component's write: only output pins may be written. -/
def write (store : PinStore) (name : String) (value : Value) : Except PinError PinStore :=
  match store.slot? name with
  | none => .error (.notFound name)
  | some slot =>
    if slot.direction.isWritable then store.assign name slot value
    else .error (.directionForbidden name slot.direction)

/-- The machine's side sets a pin of either direction. -/
def drive (store : PinStore) (name : String) (value : Value) : Except PinError PinStore :=
  match store.slot? name with
  | none => .error (.notFound name)
  | some slot => store.assign name slot value

/-- Reads the pin of a handle, whose type has to be the declared one. -/
def readAs (store : PinStore) (pin : Handle) : Except PinError Value :=
  match store.read pin.name with
  | .error e => .error e
  | .ok value =>
    if value.type = pin.type then .ok value
    else .error (.typeMismatch pin.name pin.type value.type)

/-! ## The view -/

theorem contains_eq (store : PinStore) (name : String) :
    store.contains name = (store.slot? name).isSome := rfl

theorem lookup_replace_self {name : String} {slot : Slot} {l : List (String × Slot)}
    (h : (l.lookup name).isSome) : (replace name slot l).lookup name = some slot := by
  induction l with
  | nil => simp at h
  | cons p l ih =>
    obtain ⟨n, s⟩ := p
    by_cases hn : n = name
    · simp [replace, hn]
    · have hb : (name == n) = false := by simpa using fun e => hn e.symm
      simp only [List.lookup_cons, hb] at h
      simp [replace, hn, List.lookup_cons, hb, ih h]

theorem lookup_replace_other {name other : String} (hne : other ≠ name) (slot : Slot)
    (l : List (String × Slot)) : (replace name slot l).lookup other = l.lookup other := by
  induction l with
  | nil => rfl
  | cons p l ih =>
    obtain ⟨n, s⟩ := p
    by_cases hn : n = name
    · have hb : (other == n) = false := by subst hn; simpa using hne
      rw [replace, if_pos hn, List.lookup_cons, List.lookup_cons, hb]
    · rw [replace, if_neg hn, List.lookup_cons, List.lookup_cons, ih]

@[simp] theorem slot?_put_self (store : PinStore) (name : String) (slot : Slot) :
    (store.put name slot).slot? name = some slot := by
  unfold put
  split
  · rename_i h
    exact lookup_replace_self h
  · rename_i h
    have : store.slots.lookup name = none := Option.not_isSome_iff_eq_none.mp h
    simp [slot?, List.lookup_append, this]

@[simp] theorem slot?_put_other (store : PinStore) {name other : String} (hne : other ≠ name)
    (slot : Slot) : (store.put name slot).slot? other = store.slot? other := by
  unfold put
  split
  · exact lookup_replace_other hne slot _
  · have hb : (other == name) = false := by simpa using hne
    simp [slot?, List.lookup_append, List.lookup_cons, hb]

theorem lookup_filter_ne {name other : String} (l : List (String × Slot)) :
    (l.filter (·.1 != name)).lookup other =
      if other = name then none else l.lookup other := by
  induction l with
  | nil => simp
  | cons p l ih =>
    obtain ⟨n, s⟩ := p
    by_cases hn : n = name
    · subst hn
      simp only [List.filter_cons, bne_self_eq_false, Bool.false_eq_true, ↓reduceIte, ih,
        List.lookup_cons]
      by_cases ho : other = n
      · simp [ho]
      · have : (other == n) = false := by simpa using ho
        simp [ho, this]
    · have : (n != name) = true := by simpa using hn
      simp only [List.filter_cons, this, ↓reduceIte, List.lookup_cons, ih]
      by_cases ho : other = n
      · subst ho; simp [hn]
      · have hb : (other == n) = false := by simpa using ho
        simp [hb]

@[simp] theorem slot?_remove_self (store : PinStore) (name : String) :
    (store.remove name).2.slot? name = none := by
  simp [remove, slot?, lookup_filter_ne]

@[simp] theorem slot?_remove_other (store : PinStore) {name other : String} (hne : other ≠ name) :
    (store.remove name).2.slot? other = store.slot? other := by
  simp [remove, slot?, lookup_filter_ne, hne]

end PinStore

end MachinePanel
