/-
Elements that cannot be made. The properties and the parent of a new element are
checked before anything is done, so that an error found there leaves no trace.
The pins are made one after the other, up to the first that the store refuses,
and those made until then stay, in the store and on the binder's list. The forest
is left as it was in either case, and so is every pin that was there before
(`construction_failed`).
-/
import MachinePanel.Proofs.Intact
import MachinePanel.Proofs.Requests

namespace MachinePanel

/-! ## Making several pins -/

namespace PinStore

variable {store : PinStore} {name : String} {slot : Slot} {pins : List Handle}

/-- The store after pins have been asked for. -/
def createAll (store : PinStore) (pins : List Handle) : PinStore :=
  store.serveAll (pins.map .create)

/-- Making pins changes none of those that are there. -/
theorem slot?_createAll_of_some (h : store.slot? name = some slot) :
    (store.createAll pins).slot? name = some slot := by
  induction pins generalizing store with
  | nil => exact h
  | cons pin rest ih =>
    refine ih ?_
    by_cases hname : name = pin.name
    · subst hname
      have hself := slot?_serve_self store (.create pin)
      rw [Request.name, h] at hself
      exact hself
    · rw [slot?_serve_other (r := .create pin) hname]
      exact h

/-- A pin that is there and fits goes on to fit. -/
theorem Fits.createAll {pin : Handle} (h : store.Fits pin) : (store.createAll pins).Fits pin := by
  obtain ⟨slot, hslot, hdirection, htype⟩ := h
  exact ⟨slot, slot?_createAll_of_some hslot, hdirection, htype⟩

/-- What is there after pins have been made was there before, or is one of them and new. -/
theorem slot?_createAll_cases (h : (store.createAll pins).slot? name = some slot) :
    store.slot? name = some slot ∨
      ∃ pin ∈ pins, pin.name = name ∧ slot = ⟨pin.direction, pin.type.zero⟩ := by
  induction pins generalizing store with
  | nil => exact .inl h
  | cons pin rest ih =>
    rcases ih h with hslot | ⟨pin', hpin', hname, hnew⟩
    · by_cases hname : name = pin.name
      · subst hname
        have hself := slot?_serve_self store (.create pin)
        rw [Request.name, hslot] at hself
        cases hold : store.slot? pin.name with
        | none =>
          rw [hold, Request.onSlot] at hself
          split at hself
          · cases hself
            exact .inr ⟨pin, by simp, rfl, rfl⟩
          · cases hself
        | some old =>
          rw [hold] at hself
          exact .inl hself.symm
      · rw [slot?_serve_other (r := .create pin) hname] at hslot
        exact .inl hslot
    · exact .inr ⟨pin', by simp [hpin'], hname, hnew⟩

end PinStore

namespace Binding

variable {b b' : Binding} {pins : List Handle} {tag : String} {props : Props} {now : Nanos}

/-- The pins in `made` have all been made and listed, and then one was refused. -/
structure StoppedAt (b b' : Binding) (made : List Handle) (refused : Handle) (e : PinError) :
    Prop where
  store : b'.store = b.store.createAll made
  fits : ∀ pin ∈ made, b'.store.Fits pin
  created : b'.binder.created = b.binder.created ++ made
  error : b'.store.create refused = .error e

/-- A pin that can be made is listed. -/
theorem bindPin_ok {pin : Handle} (h : b.bindPin pin = .ok b') :
    b'.store = (b.store.serve (.create pin)).2 ∧
      b'.binder.created = b.binder.created ++ [pin] := by
  unfold bindPin at h
  split at h
  · cases h
  · next store hcreate =>
    cases h
    refine ⟨?_, rfl⟩
    rw [PinStore.serve, hcreate]
    rfl

theorem StoppedAt.cons {b₁ : Binding} {pin refused : Handle} {made : List Handle} {e : PinError}
    (hpin : b.bindPin pin = .ok b₁) (h : StoppedAt b₁ b' made refused e) :
    StoppedAt b b' (pin :: made) refused e := by
  obtain ⟨hstore, hcreated⟩ := bindPin_ok hpin
  refine ⟨?_, ?_, ?_, h.error⟩
  · rw [h.store, hstore]
    rfl
  · rw [List.forall_mem_cons, h.store]
    exact ⟨(Panel.makes_bindPin hpin).2.createAll, h.store ▸ h.fits⟩
  · rw [h.created, hcreated, List.append_assoc]
    rfl

theorem exists_stoppedAt {e : PinError} (h : (b.bindPins pins).1 = some e) :
    ∃ made refused rest, pins = made ++ refused :: rest ∧
      StoppedAt b (b.bindPins pins).2 made refused e := by
  induction pins generalizing b with
  | nil => cases h
  | cons pin rest ih =>
    rw [bindPins] at h ⊢
    split
    · next e' hpin =>
      rw [hpin] at h
      cases h
      refine ⟨[], pin, rest, rfl, rfl, by simp, (List.append_nil _).symm, ?_⟩
      unfold bindPin at hpin
      split at hpin
      · next hcreate =>
        cases hpin
        exact hcreate
      · cases hpin
    · next b₁ hpin =>
      rw [hpin] at h
      obtain ⟨made, refused, rest', hrest, hstopped⟩ := ih h
      exact ⟨pin :: made, refused, rest', by rw [hrest, List.cons_append], hstopped.cons hpin⟩

/-- The pins of the element that would be made for a tag. -/
def plannedPins (b : Binding) (tag : String) (props : Props) (now : Nanos) : List Handle :=
  match Tag.ofName? tag with
  | none => []
  | some tag =>
    match Design.of props tag with
    | .error _ => []
    | .ok design => (design.element (b.takeName props design.naming).1 now).pins

/-- An attempt to make an element with these pins has failed. Unless a pin was refused,
no pin has been made; otherwise those before it have. -/
structure Failed (b b' : Binding) (pins : List Handle) (e : PanelError) : Prop where
  early : (∀ refusal, e ≠ .pin refusal) →
    b'.store = b.store ∧ b'.binder.created = b.binder.created
  refused : ∀ refusal, e = .pin refusal → ∃ made refused rest,
    pins = made ++ refused :: rest ∧ StoppedAt b b' made refused refusal

theorem Failed.congr {b'' : Binding} {e : PanelError} (h : Failed b b' pins e)
    (hstore : b''.store = b'.store) (hbinder : b''.binder = b'.binder) : Failed b b'' pins e := by
  refine ⟨fun he => ?_, fun refusal he => ?_⟩
  · rw [hstore, hbinder]
    exact h.early he
  · obtain ⟨made, refused, rest, hpins, hstopped⟩ := h.refused refusal he
    refine ⟨made, refused, rest, hpins, ?_, ?_, ?_, ?_⟩
    · exact hstore.trans hstopped.store
    · rw [hstore]
      exact hstopped.fits
    · rw [hbinder]
      exact hstopped.created
    · rw [hstore]
      exact hstopped.error

theorem failed_of_early {e : PanelError} (he : ∀ refusal, e ≠ .pin refusal) :
    Failed b b pins e :=
  ⟨fun _ => ⟨rfl, rfl⟩, fun refusal h => absurd h (he refusal)⟩

theorem Failed.exists_store_eq {e : PanelError} (h : Failed b b' pins e) :
    ∃ made, (∀ pin ∈ made, pin ∈ pins) ∧ b'.store = b.store.createAll made := by
  by_cases he : ∃ refusal, e = .pin refusal
  · obtain ⟨refusal, he⟩ := he
    obtain ⟨made, refused, rest, hpins, hstopped⟩ := h.refused refusal he
    refine ⟨made, fun pin hpin => ?_, hstopped.store⟩
    rw [hpins]
    exact List.mem_append_left _ hpin
  · exact ⟨[], nofun, (h.early fun refusal heq => he ⟨refusal, heq⟩).1⟩

/-- Taking a name makes no pin. -/
theorem takeName_snd (b : Binding) (props : Props) (naming : Option Naming) :
    (b.takeName props naming).2.store = b.store ∧
      (b.takeName props naming).2.binder.created = b.binder.created := by
  cases naming with
  | none => exact ⟨rfl, rfl⟩
  | some naming =>
    simp only [takeName, Binder.baseName]
    cases props.pinName with
    | none => exact ⟨trivial, rfl⟩
    | some name => exact ⟨trivial, rfl⟩

theorem realize_failed {t : Tag} {design : Design} {e : PanelError}
    (h : (b.realize t design props now).1 = .error e) :
    Failed b (b.realize t design props now).2
      (t.blueprint props (b.takeName props design.naming).1) e := by
  obtain ⟨hstore, hcreated⟩ := takeName_snd b props design.naming
  simp only [realize] at h ⊢
  split
  · next heq =>
    rw [heq] at h
    cases h
  · next refusal b₁ heq =>
    rw [heq] at h
    cases h
    refine ⟨fun hearly => absurd rfl (hearly refusal), fun refusal' he => ?_⟩
    cases he
    obtain ⟨made, refused, rest, hpins, hstopped⟩ := exists_stoppedAt (congrArg Prod.fst heq)
    rw [heq] at hstopped
    refine ⟨made, refused, rest, hpins, ?_, hstopped.fits, ?_, hstopped.error⟩
    · rw [hstopped.store, hstore]
    · rw [hstopped.created, hcreated]

theorem build_failed {e : PanelError} (h : (b.build tag props now).1 = .error e) :
    Failed b (b.build tag props now).2 (b.plannedPins tag props now) e := by
  unfold build at h ⊢
  unfold plannedPins
  cases htag : Tag.ofName? tag with
  | none =>
    rw [htag] at h
    cases h
    exact failed_of_early (by simp)
  | some tag =>
    rw [htag] at h
    simp only at h ⊢
    cases hdesign : Design.of props tag with
    | error e' =>
      rw [hdesign] at h
      cases h
      exact failed_of_early (by simp)
    | ok design =>
      rw [hdesign] at h
      simp only [(Design.pins_eq_blueprint hdesign).2]
      exact realize_failed h

end Binding

namespace Panel

variable {L μ : Type} {p : Panel L μ} {tag : String} {props : Props} {parent : Option Nat}
  {e : PanelError}

/-- An attempt to make an element has failed: the forest is as it was and so are the
pins that were there, and of the element's own pins none is new but those before one
that was refused. -/
structure Abandons (p q : Panel L μ) (pins : List Handle) (e : PanelError) : Prop where
  forest : q.driver.forest = p.driver.forest
  old : ∀ name slot, p.store.slot? name = some slot → q.store.slot? name = some slot
  new : ∀ name slot, q.store.slot? name = some slot → p.store.slot? name = some slot ∨
    ∃ pin ∈ pins, pin.name = name ∧ slot = ⟨pin.direction, pin.type.zero⟩
  failed : Binding.Failed p.binding q.binding pins e

theorem abandons_of_failed {q : Panel L μ} {pins : List Handle}
    (hforest : q.driver.forest = p.driver.forest)
    (hfailed : Binding.Failed p.binding q.binding pins e) : Abandons p q pins e := by
  obtain ⟨made, hmade, hstore⟩ := hfailed.exists_store_eq
  have hstore : q.store = p.store.createAll made := hstore
  refine ⟨hforest, fun name slot hslot => ?_, fun name slot hslot => ?_, hfailed⟩
  · rw [hstore]
    exact PinStore.slot?_createAll_of_some hslot
  · rw [hstore] at hslot
    rcases PinStore.slot?_createAll_cases hslot with hold | ⟨pin, hpin, hnew⟩
    · exact .inl hold
    · exact .inr ⟨pin, hmade pin hpin, hnew⟩

theorem buildElement_failed (h : (p.buildElement tag props).1 = .error e) :
    Abandons p (p.buildElement tag props).2 (p.binding.plannedPins tag props p.now) e :=
  abandons_of_failed rfl ((Binding.build_failed (b := p.binding) h).congr rfl rfl)

/-- An element whose parent is there is attached once it is made. -/
theorem addBuilt_failed (hparent : p.driver.forest.hasParent parent = true)
    (h : (p.addBuilt parent tag props).1 = .error e) :
    Abandons p (p.addBuilt parent tag props).2 (p.binding.plannedPins tag props p.now) e := by
  have hbuild : ∀ {e}, (p.buildElement tag props).1 = .error e → Abandons p _ _ e :=
    buildElement_failed
  unfold addBuilt at h ⊢
  split
  · next element q heq =>
    rw [heq] at h
    have hforest : q.driver.forest = p.driver.forest := by
      rw [← (Prod.mk.inj heq).2]
      rfl
    have hattach : ∃ r, q.driver.forest.attach parent element = .ok r := by
      rw [hforest]
      cases parent with
      | none => exact ⟨_, rfl⟩
      | some id => exact ⟨_, if_pos (of_decide_eq_true hparent)⟩
    obtain ⟨r, hr⟩ := hattach
    simp only [attachElement, hr] at h
    cases h
  · next e' q heq =>
    rw [heq] at h hbuild
    cases h
    exact hbuild rfl

theorem addElement_failed (h : (p.addElement parent tag props).1 = .error e) :
    Abandons p (p.addElement parent tag props).2 (p.binding.plannedPins tag props p.now) e := by
  unfold addElement at h ⊢
  cases parent with
  | none => exact addBuilt_failed rfl h
  | some id =>
    simp only at h ⊢
    by_cases hparent : p.driver.forest.hasParent (some id) = true
    · rw [if_pos hparent] at h ⊢
      exact addBuilt_failed hparent h
    · rw [if_neg hparent] at h ⊢
      cases h
      exact abandons_of_failed rfl (Binding.failed_of_early nofun)

/-- **An element that cannot be made** leaves the forest and all older pins as they
were. Unless the store refused a pin, no pin is new. Otherwise the pins of the
element that come before the refused one have been made and listed, and no other. -/
theorem construction_failed (p : Panel L μ) (tag : String) (props : Props) :
    (∀ e, (p.buildElement tag props).1 = .error e →
      Abandons p (p.buildElement tag props).2 (p.binding.plannedPins tag props p.now) e) ∧
    (∀ parent e, (p.addElement parent tag props).1 = .error e →
      Abandons p (p.addElement parent tag props).2 (p.binding.plannedPins tag props p.now) e) :=
  ⟨fun _ => buildElement_failed, fun _ _ => addElement_failed⟩

/-- A panel on which the name of a lamp's second pin is taken. -/
def taken : Panel Unit Unit :=
  { store := ({} : PinStore).createAll [⟨"x.disable", .input, .s32⟩], memory := () }

/-- The properties of a lamp with two pins. -/
def twoPins : Props :=
  { pinName := some "x", disablePin := true }

theorem construction_failed_taken :
    let e : PanelError := .pin (.alreadyExists "x.disable" .s32 .bit)
    (taken.addElement none "led" twoPins).1 = .error e ∧
      Abandons taken (taken.addElement none "led" twoPins).2
        [⟨"x", .input, .bit⟩, ⟨"x.disable", .input, .bit⟩] e := by
  intro e
  have h : (taken.addElement none "led" twoPins).1 = .error e := by rfl
  exact ⟨h, (construction_failed taken "led" twoPins).2 none e h⟩

/-- It is not so that an element that cannot be made leaves no trace at all. -/
theorem construction_leaves_pins :
    ¬ ∀ (p : Panel Unit Unit) (parent : Option Nat) (tag : String) (props : Props)
      (e : PanelError), (p.addElement parent tag props).1 = .error e →
        (p.addElement parent tag props).2.driver.forest = p.driver.forest ∧
        (∀ name, (p.addElement parent tag props).2.store.slot? name = p.store.slot? name) ∧
        (p.addElement parent tag props).2.binder.created = p.binder.created := by
  intro h
  obtain ⟨-, hstore, -⟩ := h taken none "led" twoPins _ rfl
  have hnew : (taken.addElement none "led" twoPins).2.store.slot? "x" =
      some ⟨.input, .bit false⟩ := by rfl
  have hold : taken.store.slot? "x" = none := by rfl
  rw [hstore, hold] at hnew
  cases hnew

end Panel

end MachinePanel
