/-
Radio buttons that lose pins. An update writes the pins in order and stops at the first that is
missing, so that the pins behind it keep what they hold. A pin is therefore high just if its choice
was selected at the last update that came as far as this pin (`Shows`). As long as no pin is
missing that is one pin alone. Afterwards a pin behind the gap may be left high for good while
another one is selected in front of it, and with every gap that opens farther in front another pin
may be left so. When an update leaves at most one pin high is told by what lies behind the gap
(`update_subsingleton_iff`).
-/
import MachinePanel.Proofs.Intact
import MachinePanel.Proofs.RadioButtons
import MachinePanel.Proofs.Requests
import Mathlib.Data.List.TakeWhile
import Mathlib.Data.Set.Subsingleton

namespace MachinePanel

namespace RadioButton

open PinStore (Request)

/-! ## Radio buttons and their pins -/

/-- The name of the pin of the choice that is selected. -/
def chosen? (r : RadioButton) : Option String :=
  r.pins[r.selected]?.map Handle.name

/-- The names of the pins that an update writes: those in front of the first that is missing. -/
def reached (r : RadioButton) (store : PinStore) : List String :=
  (r.pins.takeWhile fun pin => store.contains pin.name).map Handle.name

/-- The names of the pins that are high and that an update does not write. -/
def stale (r : RadioButton) (store : PinStore) : Set String :=
  {name | name ∈ r.highPins store ∧ name ∉ r.reached store}

/-- An update: the pins that it wrote, and the pin of the choice that was selected. -/
structure Turn where
  reached : List String
  chosen : Option String

/-- A radio button and the store of its pins, with the updates there have been, the last one
first. -/
structure Bench where
  button : RadioButton
  store : PinStore
  turns : List Turn := []

/-- What happens to a radio button and to the store: a choice is selected, the pins are written, or
the store serves a request of somebody else. -/
inductive Event where
  | select (index : Nat)
  | update
  | request (q : Request)

namespace Bench

/-- The view of the pins with which an update begins. -/
def view (m : Bench) : PinView :=
  ⟨m.store, []⟩

/-- The pins that are high. -/
def high (m : Bench) : Set String :=
  m.button.highPins m.store

/-- The last update that came as far as a pin. -/
def lastTurn? (m : Bench) (name : String) : Option Turn :=
  m.turns.find? (·.reached.contains name)

/-- What is left after an event. -/
def step (m : Bench) : Event → Bench
  | .select index => { m with button := m.button.step (.select index) }
  | .update =>
    let done := m.button.update m.view
    { button := done.element
      store := done.view.store
      turns := ⟨m.button.reached m.store, m.button.chosen?⟩ :: m.turns }
  | .request q => { m with store := (m.store.serve q).2 }

/-- What is left after several events. -/
def stepAll (m : Bench) (events : List Event) : Bench :=
  events.foldl step m

end Bench

variable {r : RadioButton} {base choice : String} {names : List String} {view : PinView}
  {store : PinStore} {m : Bench}

theorem Offers.chosen?_eq (h : Offers base names r) :
    r.chosen? = some (base ++ "." ++ r.choice) := by
  rw [chosen?, h.pins, List.getElem?_map, h.getElem?_selected]
  rfl

theorem Offers.exists_of_mem_pins {name : String} (h : Offers base names r)
    (hname : name ∈ r.pins.map Handle.name) : ∃ choice ∈ names, base ++ "." ++ choice = name := by
  rw [h.pins, List.map_map] at hname
  exact List.mem_map.1 hname

/-- The choices in front of the first whose pin is missing. -/
def front (base : String) (names : List String) (store : PinStore) : List String :=
  names.takeWhile fun choice => store.contains (pinOf base choice).name

theorem Offers.mem_reached (h : Offers base names r) :
    base ++ "." ++ choice ∈ r.reached store ↔ choice ∈ front base names store := by
  rw [reached, h.pins, List.takeWhile_map, List.map_map, List.mem_map]
  constructor
  · rintro ⟨choice', hmem, hname⟩
    rwa [← name_pinOf_eq.1 hname]
  · intro hmem
    exact ⟨choice, hmem, rfl⟩

/-! ## One update -/

/-- Every pin of a choice that is there is an output of the type bit. -/
def Fitting (base : String) (names : List String) (store : PinStore) : Prop :=
  ∀ choice ∈ names, store.contains (pinOf base choice).name = true →
    store.Fits (pinOf base choice)

theorem Fitting.write {store' : PinStore} {name : String} {value : Value}
    (h : Fitting base names store) (hwrite : store.write name value = .ok store') :
    Fitting base names store' := by
  intro choice hmem hcontains
  rw [PinStore.contains_of_write hwrite] at hcontains
  exact (h choice hmem hcontains).mono (PinStore.write_ok hwrite)

/-- **Only the pins in front of the first that is missing are written**, and none of these writes
fails. -/
theorem writePins_front (r : RadioButton) (n : Nat) (hfitting : Fitting base names view.store) :
    let all := r.writePins ((names.map (pinOf base)).zipIdx n) view
    let written := r.writePins (((front base names view.store).map (pinOf base)).zipIdx n) view
    all.view = written.view ∧ written.error = none ∧
      (all.error = none ↔
        ∀ choice ∈ names, view.store.contains (pinOf base choice).name = true) := by
  induction names generalizing n view with
  | nil => exact ⟨rfl, rfl, iff_of_true rfl (List.forall_mem_nil _)⟩
  | cons c rest ih =>
    simp only [front, List.takeWhile_cons, List.forall_mem_cons]
    by_cases hcontains : view.store.contains (pinOf base c).name = true
    · obtain ⟨view', hview'⟩ := PinView.exists_write_of_fits
        (hfitting c (List.mem_cons_self ..) hcontains) (.bit (n == r.selected)) rfl rfl
      have hwrite := PinView.store_of_write hview'
      have hrest : Fitting base rest view'.store := Fitting.write
        (fun c' hc' => hfitting c' (List.mem_cons_of_mem _ hc')) hwrite
      have hsame := PinStore.contains_of_write hwrite
      have hlater := ih (n + 1) hrest
      simp only [front, hsame] at hlater
      simp only [hcontains, if_true, List.map_cons, List.zipIdx_cons, writePins,
        PinView.writing, hview', true_and]
      exact hlater
    · have hnone : view.store.slot? (pinOf base c).name = none :=
        Option.not_isSome_iff_eq_none.1 hcontains
      have hwrite : view.write (pinOf base c) (.bit (n == r.selected)) =
          .error (.notFound (pinOf base c).name) := by
        rw [PinView.write, PinStore.write, hnone]
      simp only [hcontains, List.map_cons, List.zipIdx_cons, writePins, PinView.writing, hwrite]
      exact ⟨rfl, rfl,
        iff_of_false (Option.some_ne_none _) fun h => absurd h.1 Bool.false_ne_true⟩

/-- What is written to the pins of the first choices: the choice that is selected is high. -/
theorem Offers.lastBit?_prefix {initial : List String} (h : Offers base names r)
    (hnames : names.Nodup) (hinitial : initial <+: names) (choice : String) :
    r.lastBit? (base ++ "." ++ choice) ((initial.map (pinOf base)).zipIdx) =
      if choice ∈ initial then some (choice == r.choice) else none := by
  obtain ⟨hsome, htrue⟩ := lastBit?_zipIdx r base choice initial 0
  have hat (i : Nat) (hi : i < initial.length) : names[i]? = some initial[i] :=
    List.prefix_iff_getElem?.1 hinitial i hi
  split
  · next hmem =>
    obtain ⟨b, hb⟩ := Option.isSome_iff_exists.1 (hsome.2 hmem)
    rw [hb, Option.some.injEq] at htrue
    rw [hb, Option.some.injEq, Bool.eq_iff_iff, beq_iff_eq, htrue]
    constructor
    · rintro ⟨i, hi, hget, -⟩
      obtain ⟨hlt, rfl⟩ := List.getElem?_eq_some_iff.1 hget
      rw [Nat.zero_add] at hi
      exact Option.some.inj ((hat i hlt).symm.trans (hi ▸ h.getElem?_selected))
    · intro hchoice
      obtain ⟨i, hi, rfl⟩ := List.mem_iff_getElem.1 hmem
      have hselected : r.selected = i := (List.getElem?_inj h.selected hnames).1
        (h.getElem?_selected.trans (hchoice ▸ hat i hi).symm)
      refine ⟨i, hselected.trans (Nat.zero_add i).symm, List.getElem?_eq_getElem hi, ?_⟩
      exact List.disjoint_take_drop (hnames.sublist hinitial.sublist) le_rfl
        (List.mem_take_iff_getElem.2 ⟨i, by omega, rfl⟩)
  · next hmem =>
    rwa [← hsome, Bool.not_eq_true, Option.isSome_eq_false_iff, Option.isNone_iff_eq_none] at hmem

/-- **What an update makes of the pins**: those in front of the first that is missing show the
choice that is selected, and the others are as they were. -/
theorem Offers.read_update_front (h : Offers base names r) (hnames : names.Nodup)
    (hfitting : Fitting base names view.store) (choice : String) :
    (r.update view).view.store.read (base ++ "." ++ choice) =
      if choice ∈ front base names view.store then .ok (.bit (choice == r.choice))
      else view.store.read (base ++ "." ++ choice) := by
  obtain ⟨hview, hok, -⟩ := writePins_front r 0 hfitting
  have hfront : front base names view.store <+: names := List.takeWhile_prefix _
  have hread := read_writePins hok (base ++ "." ++ choice)
  rw [h.lastBit?_prefix hnames hfront, ← hview, ← h.pins] at hread
  refine hread.trans ?_
  split_ifs <;> rfl

/-- An update takes no pin away and makes none, and the pins stay outputs of the type bit. -/
theorem Fitting.writePins (h : Fitting base names view.store) (r : RadioButton)
    (pins : List (Handle × Nat)) :
    let store' := (r.writePins pins view).view.store
    Fitting base names store' ∧ ∀ name, store'.contains name = view.store.contains name := by
  induction pins generalizing view with
  | nil => exact ⟨h, fun _ => rfl⟩
  | cons p rest ih =>
    simp only [RadioButton.writePins, PinView.writing]
    split
    · next view' hwrite =>
      have hstore := PinView.store_of_write hwrite
      obtain ⟨hfitting, hcontains⟩ := ih (h.write hstore)
      exact ⟨hfitting, fun name =>
        (hcontains name).trans (PinStore.contains_of_write hstore name)⟩
    · exact ⟨h, fun _ => rfl⟩

/-! ## Many events -/

/-- **A pin is high just if it is there and the last update that came as far as it selected its
choice.** -/
structure Shows (base : String) (names : List String) (m : Bench) : Prop where
  offers : Offers base names m.button
  fitting : Fitting base names m.view.store
  shown : ∀ choice ∈ names, m.store.read (base ++ "." ++ choice) = .ok (.bit true) ↔
    m.store.contains (base ++ "." ++ choice) = true ∧
      ∃ t, m.lastTurn? (base ++ "." ++ choice) = some t ∧
        t.chosen = some (base ++ "." ++ choice)

theorem Shows.select (h : Shows base names m) (index : Nat) :
    Shows base names (m.step (.select index)) where
  offers := h.offers.step (.select index)
  fitting := h.fitting
  shown := h.shown

theorem Offers.lastTurn?_update (h : Offers base names m.button) (choice : String) :
    (m.step .update).lastTurn? (base ++ "." ++ choice) =
      if choice ∈ front base names m.store then
        some ⟨m.button.reached m.store, m.button.chosen?⟩
      else m.lastTurn? (base ++ "." ++ choice) := by
  simp only [Bench.lastTurn?, Bench.step, List.find?_cons, List.contains_eq_mem, h.mem_reached]
  split_ifs with hfront <;> simp only [hfront, decide_true, decide_false]

theorem Shows.read_update (h : Shows base names m) (hnames : names.Nodup) (choice : String) :
    (m.step .update).store.read (base ++ "." ++ choice) =
      if choice ∈ front base names m.store then .ok (.bit (choice == m.button.choice))
      else m.store.read (base ++ "." ++ choice) :=
  h.offers.read_update_front hnames h.fitting choice

theorem Shows.update (h : Shows base names m) (hnames : names.Nodup) :
    Shows base names (m.step .update) := by
  obtain ⟨hfitting, hcontains⟩ := h.fitting.writePins m.button m.button.pins.zipIdx
  refine ⟨h.offers.step (.update m.view), hfitting, fun choice hmem => ?_⟩
  have hcontains : (m.step .update).store.contains (base ++ "." ++ choice) =
      m.store.contains (base ++ "." ++ choice) := hcontains _
  rw [h.read_update hnames, hcontains, h.offers.lastTurn?_update]
  split_ifs with hfront
  · have hpresent : m.store.contains (base ++ "." ++ choice) = true :=
      List.mem_takeWhile_imp (p := fun choice => m.store.contains (pinOf base choice).name) hfront
    have hname : base ++ "." ++ m.button.choice = base ++ "." ++ choice ↔
        m.button.choice = choice := name_pinOf_eq
    rw [Except.ok.injEq, Value.bit.injEq, beq_iff_eq, h.offers.chosen?_eq]
    constructor
    · rintro rfl
      exact ⟨hpresent, _, rfl, rfl⟩
    · rintro ⟨-, t, ht, hchosen⟩
      obtain rfl := Option.some.inj ht
      exact (hname.1 (Option.some.inj hchosen)).symm
  · exact h.shown choice hmem

/-- The store may lose pins, as long as nobody else writes the others. -/
theorem Shows.keep {store : PinStore} (h : Shows base names m)
    (hslots : ∀ choice ∈ names, store.slot? (base ++ "." ++ choice) = none ∨
      store.slot? (base ++ "." ++ choice) = m.store.slot? (base ++ "." ++ choice)) :
    Shows base names { m with store } := by
  refine ⟨h.offers, fun choice hmem hcontains => ?_, fun choice hmem => ?_⟩
  · have hslot : (store.slot? (base ++ "." ++ choice)).isSome = true := hcontains
    obtain hgone | hsame := hslots choice hmem
    · rw [hgone] at hslot
      cases hslot
    · rw [hsame] at hslot
      obtain ⟨slot, hslot', hfits⟩ := h.fitting choice hmem hslot
      exact ⟨slot, hsame.trans hslot', hfits⟩
  · obtain hgone | hsame := hslots choice hmem
    · rw [PinStore.read, PinStore.contains_eq, hgone]
      refine iff_of_false (fun hhigh => ?_) fun hright => absurd hright.1 Bool.false_ne_true
      cases hhigh
    · have hshown := h.shown choice hmem
      rw [PinStore.read, PinStore.contains_eq] at hshown ⊢
      rw [hsame]
      exact hshown

theorem Shows.request {q : Request} (h : Shows base names m)
    (hq : (∃ name, q = .remove name) ∨ ∀ choice ∈ names, base ++ "." ++ choice ≠ q.name) :
    Shows base names (m.step (.request q)) := by
  refine h.keep fun choice hmem => ?_
  by_cases hname : base ++ "." ++ choice = q.name
  · obtain ⟨name, rfl⟩ | hother := hq
    · rw [hname]
      exact .inl (PinStore.slot?_remove_self m.store name)
    · exact absurd hname (hother choice hmem)
  · exact .inr (PinStore.slot?_serve_other hname)

/-- The pins of a radio button are left to it: another may remove them, but not write them. -/
def Event.Leaves (r : RadioButton) : Event → Prop
  | .request q => (∃ name, q = .remove name) ∨ ∀ pin ∈ r.pins, pin.name ≠ q.name
  | _ => True

theorem Shows.step (h : Shows base names m) (hnames : names.Nodup) {event : Event}
    (hevent : event.Leaves m.button) : Shows base names (m.step event) := by
  cases event with
  | select index => exact h.select index
  | update => exact h.update hnames
  | request q =>
    refine h.request (hevent.imp_right fun hother choice hmem => ?_)
    rw [h.offers.pins, List.forall_mem_map] at hother
    exact hother choice hmem

theorem Event.leaves_congr {r' : RadioButton} (h : r'.pins = r.pins) (event : Event) :
    event.Leaves r' ↔ event.Leaves r := by
  cases event <;> simp only [Event.Leaves, h]

theorem Shows.stepAll (h : Shows base names m) (hnames : names.Nodup) {events : List Event}
    (hevents : ∀ event ∈ events, event.Leaves m.button) :
    Shows base names (m.stepAll events) := by
  induction events generalizing m with
  | nil => exact h
  | cons event rest ih =>
    rw [List.forall_mem_cons] at hevents
    have hnext := h.step hnames hevents.1
    have hpins := hnext.offers.pins.trans h.offers.pins.symm
    exact ih hnext fun event hmem => (Event.leaves_congr hpins event).2 (hevents.2 event hmem)

/-! ## How many pins are high -/

/-- **After an update a pin is high if the update did not write it and it was high before, or if
the update wrote it and its choice is selected.** -/
theorem Shows.high_update (h : Shows base names m) (hnames : names.Nodup) :
    (m.step .update).high = m.button.stale m.store ∪
      {name | name ∈ m.button.reached m.store ∧ m.button.chosen? = some name} := by
  have hbutton : (m.step .update).button = m.button := writePins_element ..
  ext name
  rw [Bench.high, hbutton]
  by_cases hpin : name ∈ m.button.pins.map Handle.name
  · obtain ⟨choice, -, rfl⟩ := h.offers.exists_of_mem_pins hpin
    have hreached : base ++ "." ++ choice ∈ m.button.reached m.store ↔
        choice ∈ front base names m.store := h.offers.mem_reached
    refine (and_iff_right hpin).trans ?_
    rw [h.read_update hnames]
    split_ifs with hfront
    · have hchosen : some (base ++ "." ++ m.button.choice) = some (base ++ "." ++ choice) ↔
          choice = m.button.choice := Option.some_inj.trans (name_pinOf_eq.trans eq_comm)
      rw [Except.ok.injEq, Value.bit.injEq, beq_iff_eq, ← hchosen, ← h.offers.chosen?_eq]
      constructor
      · intro hsame
        exact .inr ⟨hreached.2 hfront, hsame⟩
      · rintro (⟨-, hbehind⟩ | ⟨-, hsame⟩)
        · exact absurd (hreached.2 hfront) hbehind
        · exact hsame
    · constructor
      · intro hhigh
        exact .inl ⟨⟨hpin, hhigh⟩, fun hmem => hfront (hreached.1 hmem)⟩
      · rintro (⟨⟨-, hhigh⟩, -⟩ | ⟨hmem, -⟩)
        · exact hhigh
        · exact absurd (hreached.1 hmem) hfront
  · refine iff_of_false (fun hmem => hpin hmem.1) fun hmem => hpin ?_
    obtain hstale | hchosen := hmem
    · exact hstale.1.1
    · exact List.map_subset _ (List.takeWhile_subset _) hchosen.1

theorem Shows.subsingleton_iff (h : Shows base names m) (hnames : names.Nodup) :
    (m.step .update).high.Subsingleton ↔ (m.button.stale m.store).Subsingleton ∧
      ((∃ name ∈ m.button.reached m.store, m.button.chosen? = some name) →
        m.button.stale m.store = ∅) := by
  rw [h.high_update hnames]
  constructor
  · intro hall
    refine ⟨hall.anti Set.subset_union_left, ?_⟩
    rintro ⟨name, hreached, hchosen⟩
    refine Set.eq_empty_of_forall_notMem fun other hother => hother.2 ?_
    rwa [hall (.inl hother) (.inr ⟨hreached, hchosen⟩)]
  · rintro ⟨hstale, hempty⟩ name (hname | hname) other (hother | hother)
    · exact hstale hname hother
    · exact absurd hname (hempty ⟨other, hother⟩ ▸ Set.notMem_empty name)
    · exact absurd hother (hempty ⟨name, hname⟩ ▸ Set.notMem_empty other)
    · exact Option.some.inj (hname.2.symm.trans hother.2)

theorem Shows.oneHot (h : Shows base names m) (hnames : names.Nodup)
    (hok : (m.button.update m.view).error = none) :
    ∃ name, m.button.chosen? = some name ∧ (m.step .update).high = {name} := by
  have hbutton : (m.step .update).button = m.button := writePins_element ..
  refine ⟨_, h.offers.chosen?_eq, Set.ext fun name => ?_⟩
  rw [Bench.high, hbutton]
  exact (h.offers.mem_highPins hok).trans
    (and_iff_left (h.offers.not_isRepeated hnames))

/-- An update fails just if a pin is missing. -/
theorem Shows.error_eq_none_iff (h : Shows base names m) :
    (m.button.update m.view).error = none ↔
      ∀ pin ∈ m.button.pins, m.store.contains pin.name = true := by
  obtain ⟨-, -, herror⟩ := writePins_front m.button 0 h.fitting
  rw [← h.offers.pins] at herror
  rw [h.offers.pins, List.forall_mem_map]
  exact herror

theorem Shows.mem_high (h : Shows base names m) (name : String) :
    name ∈ m.high ↔ name ∈ m.button.pins.map Handle.name ∧ m.store.contains name = true ∧
      ∃ t, m.lastTurn? name = some t ∧ t.chosen = some name := by
  refine and_congr_right fun hname => ?_
  obtain ⟨choice, hmem, rfl⟩ := h.offers.exists_of_mem_pins hname
  exact h.shown choice hmem

/-! ## Radio buttons of a panel -/

/-- At first no pin is high. -/
theorem shows_of_low (hoffers : Offers base names r)
    (hfits : ∀ pin ∈ r.pins, store.Fits pin)
    (hlow : ∀ pin ∈ r.pins, store.read pin.name = .ok (.bit false)) :
    Shows base names ⟨r, store, []⟩ := by
  rw [hoffers.pins, List.forall_mem_map] at hfits hlow
  refine ⟨hoffers, fun choice hmem _ => hfits choice hmem, fun choice hmem => ?_⟩
  refine iff_of_false (fun hhigh => ?_) ?_
  · cases (hlow choice hmem).symm.trans hhigh
  · rintro ⟨-, t, ht, -⟩
    cases ht

/-- **How many pins an update leaves high.** Choices may have been selected, the pins written and
some of them removed, in whatever order. An update fails just if a pin is missing; then the pins
that it did not come to are as they were. It leaves at most one pin high if and only if at most one
of those is high, and none if it has itself written the choice that is selected. An update that does
not fail leaves the choice that is selected high, and no other. -/
theorem update_subsingleton_iff {b : Binding} {props : Props} {now : Nanos} {e : Element}
    (h : (b.build "radiobutton" props now).1 = .ok e) (hnames : props.choices.Nodup)
    (hlow : ∀ pin ∈ e.pins,
      (b.build "radiobutton" props now).2.store.read pin.name = .ok (.bit false)) :
    ∃ r, e = .radioButton r ∧ ∀ events : List Event, (∀ event ∈ events, event.Leaves r) →
      let m := (⟨r, (b.build "radiobutton" props now).2.store, []⟩ : Bench).stepAll events
      let error := (m.button.update m.view).error
      let stale := m.button.stale m.store
      let m' := m.step .update
      (error = none ↔ ∀ pin ∈ r.pins, m.store.contains pin.name = true) ∧
      (∀ name, name ∈ m'.high ↔ name ∈ r.pins.map Handle.name ∧ m'.store.contains name = true ∧
        ∃ t, m'.lastTurn? name = some t ∧ t.chosen = some name) ∧
      m'.high = stale ∪
        {name | name ∈ m.button.reached m.store ∧ m.button.chosen? = some name} ∧
      (m'.high.Subsingleton ↔ stale.Subsingleton ∧
        ((∃ name ∈ m.button.reached m.store, m.button.chosen? = some name) → stale = ∅)) ∧
      (error = none → ∃ name, m.button.chosen? = some name ∧ m'.high = {name}) := by
  obtain ⟨r, rfl, hoffers⟩ := exists_offers_of_build h
  refine ⟨r, rfl, fun events hevents => ?_⟩
  intro m error stale m'
  have hstart := shows_of_low hoffers
    ((Panel.makes_build b "radiobutton" props now).2 _ h).fits hlow
  have hm : Shows _ props.choices m := hstart.stepAll hnames hevents
  have hm' : Shows _ props.choices m' := hm.update hnames
  have hpins : m.button.pins = r.pins := hm.offers.pins.trans hoffers.pins.symm
  have hpins' : m'.button.pins = r.pins := hm'.offers.pins.trans hoffers.pins.symm
  exact ⟨hpins ▸ hm.error_eq_none_iff, hpins' ▸ hm'.mem_high, hm.high_update hnames,
    hm.subsingleton_iff hnames, hm.oneHot hnames⟩

/-- One of the choices `a`, `b` and `c` is shown, another is selected, and the pin of `b` goes. -/
def acrossGap (shown selected : Nat) : List Event :=
  [.select shown, .update, .select selected, .request (.remove "r.b")]

theorem update_subsingleton_iff_behind :
    let r := new "r" (onBase ["a", "b", "c"])
    let m := (⟨r, (freshPins ["a", "b", "c"]).store, []⟩ : Bench).stepAll (acrossGap 0 2)
    (Binding.build ⟨{}, {}, []⟩ "radiobutton" (onBase ["a", "b", "c"]) 0).1 =
        .ok (.radioButton r) ∧
      (onBase ["a", "b", "c"]).choices.Nodup ∧
      (∀ pin ∈ r.pins, (freshPins ["a", "b", "c"]).store.read pin.name = .ok (.bit false)) ∧
      (∀ event ∈ acrossGap 0 2, event.Leaves r) ∧
      (m.step .update).high = ∅ := by
  intro r m
  have hbuild : (Binding.build ⟨{}, {}, []⟩ "radiobutton" (onBase ["a", "b", "c"]) 0).1 =
      .ok (.radioButton r) := by rfl
  have hnames : (onBase ["a", "b", "c"]).choices.Nodup := by decide
  have hlow : ∀ pin ∈ r.pins,
      (freshPins ["a", "b", "c"]).store.read pin.name = .ok (.bit false) := by
    rintro _ (_ | ⟨_, _ | ⟨_, _ | ⟨_, ⟨⟩⟩⟩⟩) <;> rfl
  have hevents : ∀ event ∈ acrossGap 0 2, event.Leaves r := by
    rintro _ (_ | ⟨_, _ | ⟨_, _ | ⟨_, _ | ⟨_, ⟨⟩⟩⟩⟩⟩)
    · trivial
    · trivial
    · trivial
    · exact .inl ⟨_, rfl⟩
  obtain ⟨_, heq, hall⟩ := update_subsingleton_iff hbuild hnames hlow
  cases heq
  obtain ⟨-, hhigh, -⟩ := hall (acrossGap 0 2) hevents
  refine ⟨hbuild, hnames, hlow, hevents, Set.eq_empty_of_forall_notMem fun name hname => ?_⟩
  obtain ⟨hpin, hcontains, t, ht, hchosen⟩ := (hhigh name).1 hname
  obtain _ | ⟨_, _ | ⟨_, _ | ⟨_, ⟨⟩⟩⟩⟩ := hpin
  · -- The update has written `a` low, and stopped.
    cases ht
    cases hchosen
  · cases hcontains
  · -- The update has not come to `c`, which was low.
    cases ht
    cases hchosen

/-- It is not so that an update leaves at most one pin high, whether it fails or not: it writes the
choice that is selected, stops at the pin that is missing, and does not come to the one that was
selected before. -/
theorem update_two_high :
    ¬ ∀ (b : Binding) (props : Props) (now : Nanos) (e : Element),
      let store := (b.build "radiobutton" props now).2.store
      (b.build "radiobutton" props now).1 = .ok e → props.choices.Nodup →
      (∀ pin ∈ e.pins, store.read pin.name = .ok (.bit false)) →
      ∃ r, e = .radioButton r ∧ ∀ events : List Event,
        (∀ event ∈ events, (∃ index, event = .select index) ∨ event = .update ∨
          ∃ pin ∈ r.pins, event = .request (.remove pin.name)) →
        (((⟨r, store, []⟩ : Bench).stepAll events).step .update).high.Subsingleton := by
  intro h
  obtain ⟨r, heq, hall⟩ := h ⟨{}, {}, []⟩ (onBase ["a", "b", "c"]) 0
    (.radioButton (new "r" (onBase ["a", "b", "c"]))) rfl (by decide) (by
      rintro _ (_ | ⟨_, _ | ⟨_, _ | ⟨_, ⟨⟩⟩⟩⟩) <;> rfl)
  cases heq
  have honly := hall (acrossGap 2 0) (by
    rintro _ (_ | ⟨_, _ | ⟨_, _ | ⟨_, _ | ⟨_, ⟨⟩⟩⟩⟩⟩)
    · exact .inl ⟨2, rfl⟩
    · exact .inr (.inl rfl)
    · exact .inl ⟨0, rfl⟩
    · exact .inr (.inr ⟨pinOf "r" "b", .tail _ (.head _), rfl⟩))
  have hsame : "r.a" = "r.c" := honly ⟨.head _, rfl⟩ ⟨.tail _ (.tail _ (.head _)), rfl⟩
  exact absurd hsame (by decide)

end RadioButton

end MachinePanel
