/-
Elements that can be made. The pins of the blueprint are made one after the other. If all of them
can be made, they are the pins that the new element has, the list of the binder grows by just
these, the store has them and all that it had before, and the element can be updated right away
(`build_accounts`).
-/
import MachinePanel.Proofs.Construction

namespace MachinePanel

/-! ## Making all pins -/

namespace PinStore

variable {store store' : PinStore} {pins : List Handle}

/-- The store has all pins it had before, just as they were, and of these pins, which now are
all there, those that were missing have been added with the zeros of their types. -/
structure Adds (store : PinStore) (pins : List Handle) (store' : PinStore) : Prop where
  fits : ∀ pin ∈ pins, store'.Fits pin
  old : ∀ name slot, store.slot? name = some slot → store'.slot? name = some slot
  new : ∀ pin ∈ pins, store.slot? pin.name = none →
    store'.slot? pin.name = some ⟨pin.direction, pin.type.zero⟩
  other : ∀ name, (∀ pin ∈ pins, pin.name ≠ name) → store'.slot? name = store.slot? name

theorem adds_createAll (hfits : ∀ pin ∈ pins, (store.createAll pins).Fits pin) :
    Adds store pins (store.createAll pins) := by
  have hold : ∀ name slot, store.slot? name = some slot →
      (store.createAll pins).slot? name = some slot := fun _ _ => slot?_createAll_of_some
  refine ⟨hfits, hold, fun pin hpin hnone => ?_, fun name hother => ?_⟩
  · obtain ⟨slot, hslot, hdirection, htype⟩ := hfits pin hpin
    rcases slot?_createAll_cases hslot with hsome | ⟨pin', -, -, rfl⟩
    · rw [hnone] at hsome
      cases hsome
    · -- The slot was made for a pin of the same name, which cannot differ, for both fit.
      have hdirection' : pin'.direction = pin.direction := hdirection
      have htype' : pin'.type = pin.type := (Value.type_zero _).symm.trans htype
      rw [hslot, hdirection', htype']
  · cases hslot : (store.createAll pins).slot? name with
    | none =>
      cases hbefore : store.slot? name with
      | none => rfl
      | some slot =>
        rw [hold name slot hbefore] at hslot
        cases hslot
    | some slot =>
      rcases slot?_createAll_cases hslot with hsome | ⟨pin, hpin, hname, -⟩
      · exact hsome.symm
      · exact absurd hname (hother pin hpin)

end PinStore

namespace Binding

variable {b : Binding} {pins : List Handle} {tag : String} {props : Props} {now : Nanos}
  {e : Element}

/-- Pins that can all be made are all listed. -/
theorem bindPins_ok (h : (b.bindPins pins).1 = none) :
    (b.bindPins pins).2.store = b.store.createAll pins ∧
      (b.bindPins pins).2.binder.created = b.binder.created ++ pins := by
  induction pins generalizing b with
  | nil => exact ⟨rfl, (List.append_nil _).symm⟩
  | cons pin rest ih =>
    rw [bindPins] at h ⊢
    split
    · next hpin =>
      rw [hpin] at h
      cases h
    · next b₁ hpin =>
      rw [hpin] at h
      obtain ⟨hstore, hcreated⟩ := bindPin_ok hpin
      obtain ⟨hrestStore, hrestCreated⟩ := ih h
      refine ⟨?_, ?_⟩
      · rw [hrestStore, hstore]
        rfl
      · rw [hrestCreated, hcreated, List.append_assoc]
        rfl

theorem realize_ok {t : Tag} {design : Design} (h : (b.realize t design props now).1 = .ok e) :
    let base := (b.takeName props design.naming).1
    let b' := (b.realize t design props now).2
    e = design.element base now ∧ b'.store = b.store.createAll (t.blueprint props base) ∧
      b'.binder.created = b.binder.created ++ t.blueprint props base := by
  obtain ⟨hstore, hcreated⟩ := takeName_snd b props design.naming
  simp only [realize] at h ⊢
  split
  · next b' heq =>
    rw [heq] at h
    cases h
    obtain ⟨hpinsStore, hpinsCreated⟩ := bindPins_ok (congrArg Prod.fst heq)
    rw [heq] at hpinsStore hpinsCreated
    exact ⟨rfl, hpinsStore.trans (by rw [hstore]), hpinsCreated.trans (by rw [hcreated])⟩
  · next heq =>
    rw [heq] at h
    cases h

theorem exists_of_build_ok (h : (b.build tag props now).1 = .ok e) :
    ∃ t design, Tag.ofName? tag = some t ∧ Design.of props t = .ok design ∧
      b.build tag props now = b.realize t design props now := by
  unfold build at h ⊢
  cases htag : Tag.ofName? tag with
  | none =>
    rw [htag] at h
    cases h
  | some t =>
    rw [htag] at h
    simp only at h ⊢
    cases hdesign : Design.of props t with
    | error err =>
      rw [hdesign] at h
      cases h
    | ok design => exact ⟨t, design, rfl, hdesign, rfl⟩

/-- **An element that has been made accounts for every pin.** Its pins are those of its
blueprint, on the name that was taken for it. The list of the binder has grown by just these, in
this order. They are in the store, each with its direction and type; those that were missing hold
zero, and all other pins are as they were, in direction, type and value. And whenever
the element is first updated, it finds all its pins. -/
theorem build_accounts (b : Binding) (tag : String) (props : Props) (now : Nanos) (e : Element)
    (h : (b.build tag props now).1 = .ok e) :
    let b' := (b.build tag props now).2
    (∃ t, Tag.ofName? tag = some t ∧
      e.pins = t.blueprint props (b.takeName props (t.naming props)).1) ∧
    b'.binder.created = b.binder.created ++ e.pins ∧
    b.store.Adds e.pins b'.store ∧
    ∀ later, (e.update later ⟨b'.store, []⟩).error = none := by
  intro b'
  have hseated : e.Seated b'.store := (Panel.makes_build b tag props now).2 e h
  obtain ⟨t, design, htag, hdesign, hbuild⟩ := exists_of_build_ok h
  rw [hbuild] at h
  obtain ⟨helement, hstore, hcreated⟩ := realize_ok h
  obtain ⟨hnaming, hagree⟩ := Design.pins_eq_blueprint hdesign
  have hpins : e.pins = t.blueprint props (b.takeName props design.naming).1 := by
    rw [helement, hagree]
  rw [← hbuild, ← hpins] at hstore hcreated
  have hstore : b'.store = b.store.createAll e.pins := hstore
  refine ⟨⟨t, htag, ?_⟩, hcreated, ?_, fun later => ?_⟩
  · rw [hpins, hnaming]
  · rw [hstore]
    exact PinStore.adds_createAll (hstore ▸ hseated.fits)
  · obtain ⟨view, hupdate, -, -⟩ := hseated.update later (PinView.tracks_start b'.store)
    rw [hupdate]

/-- A store in which the first pin of a radio button is there and high. -/
def halfMade : Binding where
  store := ⟨[("r.a", ⟨.output, .bit true⟩)]⟩
  binder := {}

/-- The properties of a radio button with a choice that is listed twice. -/
def repeatedChoice : Props :=
  { pinName := some "r", choices := ["a", "b", "a"] }

theorem build_accounts_repeatedChoice :
    let e : Element := .radioButton (.new "r" repeatedChoice)
    let b' := (halfMade.build "radiobutton" repeatedChoice 0).2
    (halfMade.build "radiobutton" repeatedChoice 0).1 = .ok e ∧
      b'.binder.created =
        [⟨"r.a", .output, .bit⟩, ⟨"r.b", .output, .bit⟩, ⟨"r.a", .output, .bit⟩] ∧
      b'.store.slot? "r.a" = some ⟨.output, .bit true⟩ ∧
      b'.store.slot? "r.b" = some ⟨.output, .bit false⟩ ∧
      ∀ later, (e.update later ⟨b'.store, []⟩).error = none := by
  intro e b'
  have h : (halfMade.build "radiobutton" repeatedChoice 0).1 = .ok e := by rfl
  obtain ⟨-, hcreated, hadds, hupdate⟩ := build_accounts halfMade _ _ 0 e h
  refine ⟨h, hcreated, hadds.old "r.a" _ rfl, ?_, hupdate⟩
  exact hadds.new ⟨"r.b", .output, .bit⟩ (by decide) rfl

end Binding

end MachinePanel
