/-
What a store of pins grants. A request makes, writes, drives or removes the pin it
names; what becomes of that pin depends on the pin alone (`slot?_serve_self`), and
every other pin stays as it is (`slot?_serve_other`). So the pin of a name keeps
its direction and its type for as long as it is there, and an input its value for
as long as the machine's side does not drive it (`keeps_serveAll`).

Components make and write pins, but neither drive nor remove them: whatever they
do, all pins are retained (`Retains`).
-/
import MachinePanel.Proofs.StoreFacts

namespace MachinePanel

/-- The pin keeps its direction and its type, and an input its value unless it is driven. -/
structure Slot.Keeps (driven : Prop) (slot slot' : Slot) : Prop where
  direction : slot'.direction = slot.direction
  type : slot'.type = slot.type
  value : slot.direction = .input → ¬ driven → slot' = slot

theorem Slot.Keeps.refl (driven : Prop) (slot : Slot) : slot.Keeps driven slot :=
  ⟨rfl, rfl, fun _ _ => rfl⟩

theorem Slot.Keeps.trans {driven driven' : Prop} {s₁ s₂ s₃ : Slot} (h : s₁.Keeps driven s₂)
    (h' : s₂.Keeps driven' s₃) : s₁.Keeps (driven ∨ driven') s₃ where
  direction := h'.direction.trans h.direction
  type := h'.type.trans h.type
  value hinput hnot := by
    have heq : s₂ = s₁ := h.value hinput fun hd => hnot (.inl hd)
    subst heq
    exact h'.value hinput fun hd => hnot (.inr hd)

theorem Slot.Keeps.mono {driven driven' : Prop} {slot slot' : Slot} (h : slot.Keeps driven slot')
    (himp : driven → driven') : slot.Keeps driven' slot' :=
  ⟨h.direction, h.type, fun hinput hnot => h.value hinput fun hd => hnot (himp hd)⟩

namespace PinStore

/-- What can be asked of a store. -/
inductive Request where
  | create (pin : Handle)
  | write (name : String) (value : Value)
  | drive (name : String) (value : Value)
  | remove (name : String)

namespace Request

/-- The name of the pin that the request is about. -/
def name : Request → String
  | create pin => pin.name
  | write name _ | drive name _ | remove name => name

/-- What becomes of the pin that the request is about. -/
def onSlot : Request → Option Slot → Option Slot
  | create pin, none =>
    if PinName.isValid pin.name then some ⟨pin.direction, pin.type.zero⟩ else none
  | create _, some slot => some slot
  | write _ value, slot? => slot?.map (settleSlot · value)
  | drive _ value, slot? =>
    slot?.map fun slot => if value.type = slot.type then { slot with value } else slot
  | remove _, _ => none

end Request

/-- The store that an attempt leaves, with the error if it fails. -/
def attempt (store : PinStore) : Except PinError PinStore → Option PinError × PinStore
  | .ok store' => (none, store')
  | .error e => (some e, store)

/-- Serves a request. -/
def serve (store : PinStore) : Request → Option PinError × PinStore
  | .create pin => store.attempt (store.create pin)
  | .write name value => store.attempt (store.write name value)
  | .drive name value => store.attempt (store.drive name value)
  | .remove name => (none, (store.remove name).2)

/-- Serves requests one after the other. -/
def serveAll (store : PinStore) (requests : List Request) : PinStore :=
  requests.foldl (fun store r => (store.serve r).2) store

variable {store store' : PinStore} {pin : Handle} {name : String} {slot slot' : Slot}
  {value : Value} {r : Request}

/-! ## One request -/

/-- A request that is refused changes nothing. -/
theorem serve_eq_self {e : PinError} (h : (store.serve r).1 = some e) :
    (store.serve r).2 = store := by
  have hattempt : ∀ result, (store.attempt result).1 = some e →
      (store.attempt result).2 = store := by
    intro result hresult
    cases result with
    | ok store' => cases hresult
    | error e' => rfl
  cases r with
  | create pin => exact hattempt _ h
  | write name value => exact hattempt _ h
  | drive name value => exact hattempt _ h
  | remove name => cases h

/-- A store after a request: it is as it was, or the pin of the request has been put
into it or removed from it. -/
inductive Served (store : PinStore) (r : Request) : PinStore → Prop where
  | same : Served store r store
  | put (slot : Slot) (hvalid : PinName.isValid r.name = true ∨ store.contains r.name = true) :
      Served store r (store.put r.name slot)
  | removed : Served store r (store.remove r.name).2

theorem served_assign (hslot : store.slot? r.name = some slot) (value : Value) :
    Served store r (store.attempt (store.assign r.name slot value)).2 := by
  unfold assign
  split
  · exact .put _ (.inr (by rw [contains_eq, hslot]; rfl))
  · exact .same

theorem served_serve (store : PinStore) (r : Request) : Served store r (store.serve r).2 := by
  cases r with
  | create pin =>
    simp only [serve, create]
    split
    · exact .same
    · next hvalid =>
      split
      · have hname : PinName.isValid pin.name = true := by simpa using hvalid
        exact .put _ (.inl hname)
      · split
        · exact .same
        · split <;> exact .same
  | write name value =>
    simp only [serve, write]
    split
    · exact .same
    · next slot hslot =>
      split
      · exact served_assign (r := .write name value) hslot value
      · exact .same
  | drive name value =>
    simp only [serve, drive]
    split
    · exact .same
    · next slot hslot => exact served_assign (r := .drive name value) hslot value
  | remove name => exact .removed

theorem Served.slot?_other (h : Served store r store') (hne : name ≠ r.name) :
    store'.slot? name = store.slot? name := by
  cases h with
  | same => rfl
  | put slot hvalid => exact slot?_put_other store hne slot
  | removed => exact slot?_remove_other store hne

/-- **A request touches the pin it names alone.** -/
theorem slot?_serve_other (hne : name ≠ r.name) :
    (store.serve r).2.slot? name = store.slot? name :=
  (served_serve store r).slot?_other hne

theorem slot?_assign_self (hslot : store.slot? name = some slot) (value : Value) :
    (store.attempt (store.assign name slot value)).2.slot? name =
      some (if value.type = slot.type then { slot with value } else slot) := by
  unfold assign
  split
  · exact slot?_put_self ..
  · exact hslot

/-- **What a request makes of its pin** depends on nothing else in the store. -/
theorem slot?_serve_self (store : PinStore) (r : Request) :
    (store.serve r).2.slot? r.name = r.onSlot (store.slot? r.name) := by
  cases r with
  | create pin =>
    simp only [serve, create, Request.name]
    cases hslot : store.slot? pin.name with
    | none =>
      by_cases hvalid : PinName.isValid pin.name = true
      · simp [attempt, Request.onSlot, hvalid]
      · simp [attempt, Request.onSlot, hvalid, hslot]
    | some slot =>
      simp only
      split
      · exact hslot
      · split
        · exact hslot
        · split <;> exact hslot
  | write name value =>
    simp only [serve, write, Request.name]
    cases hslot : store.slot? name with
    | none => exact hslot
    | some slot =>
      by_cases hwritable : slot.direction.isWritable = true
      · simp [slot?_assign_self hslot, Request.onSlot, settleSlot, hwritable]
      · simp [attempt, Request.onSlot, settleSlot, hwritable, hslot]
  | drive name value =>
    simp only [serve, drive, Request.name]
    cases hslot : store.slot? name with
    | none => exact hslot
    | some slot => exact slot?_assign_self hslot value
  | remove name => exact slot?_remove_self store name

/-! ## What pins keep -/

theorem keeps_settleSlot (slot : Slot) (value : Value) :
    slot.Keeps False (settleSlot slot value) := by
  unfold settleSlot
  split
  · next h =>
    refine ⟨rfl, h.2, fun hinput => ?_⟩
    rw [hinput] at h
    cases h.1
  · exact .refl False slot

theorem keeps_onSlot (hremove : r ≠ .remove name) (hname : r.name = name) (slot : Slot) :
    ∃ slot', r.onSlot (some slot) = some slot' ∧
      slot.Keeps (∃ value, r = .drive name value) slot' := by
  cases r with
  | create pin => exact ⟨slot, rfl, .refl _ slot⟩
  | write name' value =>
    exact ⟨_, rfl, (keeps_settleSlot slot value).mono False.elim⟩
  | drive name' value =>
    subst hname
    refine ⟨_, rfl, ?_⟩
    simp only
    split
    · next htype => exact ⟨rfl, htype, fun _ hnot => absurd ⟨value, rfl⟩ hnot⟩
    · exact .refl _ slot
  | remove name' => exact absurd (congrArg Request.remove hname) hremove

/-- One request: a pin that it does not remove keeps its direction and its type, and an
input that it does not drive keeps its value. -/
theorem keeps_serve (hslot : store.slot? name = some slot) (hremove : r ≠ .remove name) :
    ∃ slot', (store.serve r).2.slot? name = some slot' ∧
      slot.Keeps (∃ value, r = .drive name value) slot' := by
  by_cases hname : name = r.name
  · have hself := slot?_serve_self store r
    rw [← hname, hslot] at hself
    rw [hself]
    exact keeps_onSlot hremove hname.symm slot
  · exact ⟨slot, by rw [slot?_serve_other hname, hslot], .refl _ slot⟩

/-- **Any number of requests**: the pin of a name keeps its direction and its type
unless it is removed, and an input its value unless it is driven. -/
theorem keeps_serveAll {requests : List Request} (hslot : store.slot? name = some slot)
    (hremove : .remove name ∉ requests) :
    ∃ slot', (store.serveAll requests).slot? name = some slot' ∧
      slot.Keeps (∃ value, .drive name value ∈ requests) slot' := by
  induction requests generalizing store slot with
  | nil => exact ⟨slot, hslot, .refl _ slot⟩
  | cons r rest ih =>
    have hr : r ≠ .remove name := fun h => hremove (h ▸ List.mem_cons_self ..)
    obtain ⟨slot₁, hslot₁, hkeeps⟩ := keeps_serve hslot hr
    obtain ⟨slot₂, hslot₂, hrest⟩ := ih hslot₁ fun h => hremove (List.mem_cons_of_mem r h)
    refine ⟨slot₂, hslot₂, (hkeeps.trans hrest).mono ?_⟩
    rintro (⟨value, rfl⟩ | ⟨value, hmem⟩)
    · exact ⟨value, List.mem_cons_self ..⟩
    · exact ⟨value, List.mem_cons_of_mem r hmem⟩

/-! ## Names -/

/-- All pins have names that are pin names. -/
def Named (store : PinStore) : Prop :=
  ∀ entry ∈ store.slots, PinName.isValid entry.1 = true

theorem mem_of_lookup {l : List (String × Slot)} (h : l.lookup name = some slot) :
    (name, slot) ∈ l := by
  induction l with
  | nil => cases h
  | cons entry rest ih =>
    obtain ⟨n, s⟩ := entry
    rw [List.lookup_cons] at h
    by_cases hn : name = n
    · subst hn
      simp only [BEq.rfl, Option.some.injEq] at h
      rw [h]
      exact List.mem_cons_self ..
    · have hb : (name == n) = false := by simpa using hn
      rw [hb] at h
      exact List.mem_cons_of_mem _ (ih h)

theorem Named.isValid (h : store.Named) (hcontains : store.contains name = true) :
    PinName.isValid name = true := by
  obtain ⟨slot, hslot⟩ := Option.isSome_iff_exists.1 hcontains
  exact h _ (mem_of_lookup hslot)

theorem exists_of_mem_replace {entry : String × Slot} {l : List (String × Slot)}
    (h : entry ∈ replace name slot l) : ∃ entry' ∈ l, entry'.1 = entry.1 := by
  induction l with
  | nil => cases h
  | cons p rest ih =>
    obtain ⟨n, s⟩ := p
    unfold replace at h
    split at h
    · rcases List.mem_cons.1 h with rfl | h
      · exact ⟨(n, s), by simp, rfl⟩
      · exact ⟨entry, by simp [h], rfl⟩
    · rcases List.mem_cons.1 h with rfl | h
      · exact ⟨(n, s), by simp, rfl⟩
      · obtain ⟨entry', hmem, heq⟩ := ih h
        exact ⟨entry', by simp [hmem], heq⟩

theorem Named.put (h : store.Named) (hvalid : PinName.isValid name = true) (slot : Slot) :
    (store.put name slot).Named := by
  intro entry hentry
  unfold PinStore.put at hentry
  split at hentry
  · obtain ⟨entry', hmem, heq⟩ := exists_of_mem_replace hentry
    rw [← heq]
    exact h entry' hmem
  · rcases List.mem_append.1 hentry with hentry | hentry
    · exact h entry hentry
    · rw [List.mem_singleton.1 hentry]
      exact hvalid

theorem Served.named (hserved : Served store r store') (h : store.Named) : store'.Named := by
  cases hserved with
  | same => exact h
  | put slot hvalid => exact h.put (hvalid.elim id h.isValid) slot
  | removed => exact fun entry hentry => h entry (List.mem_filter.1 hentry).1

theorem Named.serveAll (h : store.Named) (requests : List Request) :
    (store.serveAll requests).Named := by
  induction requests generalizing store with
  | nil => exact h
  | cons r rest ih => exact ih ((served_serve store r).named h)

/-! ## What components do -/

/-- The pin of a name, if there is one, is still there, with its direction and its
type and, if it is an input, its value. -/
def RetainsAt (name : String) (store store' : PinStore) : Prop :=
  ∀ slot, store.slot? name = some slot →
    ∃ slot', store'.slot? name = some slot' ∧ slot.Keeps False slot'

/-- All pins are retained. -/
def Retains (store store' : PinStore) : Prop :=
  ∀ name, RetainsAt name store store'

theorem RetainsAt.refl (name : String) (store : PinStore) : RetainsAt name store store :=
  fun slot hslot => ⟨slot, hslot, .refl False slot⟩

theorem RetainsAt.trans {s₁ s₂ s₃ : PinStore} (h : RetainsAt name s₁ s₂)
    (h' : RetainsAt name s₂ s₃) : RetainsAt name s₁ s₃ := by
  intro slot hslot
  obtain ⟨slot₂, hslot₂, hkeeps⟩ := h slot hslot
  obtain ⟨slot₃, hslot₃, hkeeps'⟩ := h' slot₂ hslot₂
  exact ⟨slot₃, hslot₃, (hkeeps.trans hkeeps').mono (Or.elim · id id)⟩

theorem Retains.refl (store : PinStore) : Retains store store :=
  fun name => .refl name store

theorem Retains.trans {s₁ s₂ s₃ : PinStore} (h : Retains s₁ s₂) (h' : Retains s₂ s₃) :
    Retains s₁ s₃ :=
  fun name => (h name).trans (h' name)

/-- A request that neither removes nor drives the pin of a name retains it. -/
theorem retainsAt_serve (store : PinStore) (hremove : r ≠ .remove name)
    (hdrive : ∀ value, r ≠ .drive name value) : RetainsAt name store (store.serve r).2 := by
  intro slot hslot
  obtain ⟨slot', hslot', hkeeps⟩ := keeps_serve hslot hremove
  exact ⟨slot', hslot', hkeeps.mono fun ⟨value, heq⟩ => hdrive value heq⟩

theorem retains_create (h : store.create pin = .ok store') : Retains store store' := by
  intro name
  have hserve : RetainsAt name store (store.serve (.create pin)).2 :=
    retainsAt_serve store nofun nofun
  rwa [serve, h] at hserve

theorem retains_write (h : store.write name value = .ok store') : Retains store store' := by
  intro other
  have hserve : RetainsAt other store (store.serve (.write name value)).2 :=
    retainsAt_serve store nofun nofun
  rwa [serve, h] at hserve

end PinStore

end MachinePanel
