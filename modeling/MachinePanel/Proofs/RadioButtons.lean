/-
Radio buttons. An update writes the pin of every choice, one after the other, and if
no write fails every pin holds what was written to it last. Two choices of one name have
one pin. So a name is high in the end just if the last choice of that name is the one
that is selected (`lastBit?_zipIdx`). The pins are one-hot, and show the choice that is
selected, unless a later choice has its name; in that case they are all low
(`update_oneHot_iff`).
-/
import MachinePanel.Forest
import MachinePanel.Proofs.StoreFacts
import Mathlib.Data.Set.Insert

namespace MachinePanel.RadioButton

/-- What happens to a radio button: a choice is selected, or the pins are written. -/
inductive Step where
  | select (index : Nat)
  | update (view : PinView)

/-- The radio button after a step. To select a choice that there is not changes nothing. -/
def step (r : RadioButton) : Step → RadioButton
  | .select index =>
    match r.select index with
    | .ok r => r
    | .error _ => r
  | .update view => (r.update view).element

/-- The radio button after several steps. -/
def stepAll (r : RadioButton) (steps : List Step) : RadioButton :=
  steps.foldl step r

/-- The pin of a choice. -/
def pinOf (base choice : String) : Handle :=
  ⟨base ++ "." ++ choice, .output, .bit⟩

/-- The names of the pins that are high. -/
def highPins (r : RadioButton) (store : PinStore) : Set String :=
  {name | name ∈ r.pins.map Handle.name ∧ store.read name = .ok (.bit true)}

/-- A later choice has the name of the choice that is selected. -/
def IsRepeated (r : RadioButton) : Prop :=
  r.choice ∈ r.choices.drop (r.selected + 1)

variable {r : RadioButton} {base name : String} {names : List String} {view : PinView}

/-! ## The radio button itself -/

/-- The radio button has the choices of these names, with a pin for each of them, and one is
selected. -/
structure Offers (base : String) (names : List String) (r : RadioButton) : Prop where
  choices : r.choices = names
  pins : r.pins = names.map (pinOf base)
  selected : r.selected < names.length

theorem initialChoice_lt {props : Props} (h : props.choices ≠ []) :
    initialChoice props < props.choices.length := by
  have hpos : 0 < props.choices.length := List.length_pos_iff.2 h
  unfold initialChoice
  split
  · exact hpos
  · split
    · simp only
      split
      · assumption
      · exact hpos
    · exact hpos

theorem offers_new {props : Props} (base : String) (h : props.choices ≠ []) :
    Offers base props.choices (new base props) :=
  ⟨rfl, rfl, initialChoice_lt h⟩

theorem writePins_element (r : RadioButton) (pins : List (Handle × Nat)) (view : PinView) :
    (r.writePins pins view).element = r := by
  induction pins generalizing view with
  | nil => rfl
  | cons p rest ih =>
    simp only [writePins, PinView.writing]
    split
    · exact ih _
    · rfl

theorem Offers.step (h : Offers base names r) (s : Step) : Offers base names (r.step s) := by
  cases s with
  | update view =>
    rw [RadioButton.step, update, writePins_element]
    exact h
  | select index =>
    simp only [RadioButton.step, select]
    split
    · next r' hselect =>
      split at hselect
      · next hlt =>
        cases hselect
        exact ⟨h.choices, h.pins, h.choices ▸ hlt⟩
      · cases hselect
    · exact h

theorem Offers.stepAll (h : Offers base names r) (steps : List Step) :
    Offers base names (r.stepAll steps) := by
  induction steps generalizing r with
  | nil => exact h
  | cons s rest ih => exact ih (h.step s)

theorem Offers.getElem?_selected (h : Offers base names r) :
    names[r.selected]? = some r.choice := by
  rw [choice, h.choices, List.getD_eq_getElem?_getD, List.getElem?_eq_getElem h.selected,
    Option.getD_some]

/-! ## The pins -/

/-- What is written last under a name. -/
def lastBit? (r : RadioButton) (name : String) : List (Handle × Nat) → Option Bool
  | [] => none
  | (pin, i) :: rest =>
    (r.lastBit? name rest).or (if pin.name = name then some (i == r.selected) else none)

/-- **If no write fails, a pin holds what was written to it last.** -/
theorem read_writePins {pins : List (Handle × Nat)} (hok : (r.writePins pins view).error = none)
    (name : String) : (r.writePins pins view).view.store.read name =
      match r.lastBit? name pins with
      | some b => .ok (.bit b)
      | none => view.store.read name := by
  induction pins generalizing view with
  | nil => rfl
  | cons p rest ih =>
    obtain ⟨pin, i⟩ := p
    simp only [writePins, PinView.writing] at hok ⊢
    cases hwrite : view.write pin (.bit (i == r.selected)) with
    | error e =>
      rw [hwrite] at hok
      cases hok
    | ok view' =>
      rw [hwrite] at hok
      simp only at hok ⊢
      rw [ih hok, lastBit?]
      cases r.lastBit? name rest with
      | some b => rfl
      | none =>
        obtain ⟨store', hstore, rfl⟩ := PinView.exists_of_write hwrite
        simp only [PinView.remember, PinStore.read_of_write hstore, eq_comm (a := name)]
        split <;> rfl

theorem name_pinOf_eq {choice choice' : String} :
    (pinOf base choice).name = base ++ "." ++ choice' ↔ choice = choice' := by
  simp [pinOf]

/-- Every choice has its pin written, and the pin ends up high just if the last choice of the
name is the one that is selected. -/
theorem lastBit?_zipIdx (r : RadioButton) (base choice : String) (names : List String) (n : Nat) :
    let last := r.lastBit? (base ++ "." ++ choice) ((names.map (pinOf base)).zipIdx n)
    (last.isSome ↔ choice ∈ names) ∧
      (last = some true ↔ ∃ i, r.selected = n + i ∧ names[i]? = some choice ∧
        choice ∉ names.drop (i + 1)) := by
  induction names generalizing n with
  | nil => simp [lastBit?]
  | cons c rest ih =>
    obtain ⟨hsome, htrue⟩ := ih (n + 1)
    simp only [List.map_cons, List.zipIdx_cons, lastBit?, name_pinOf_eq]
    generalize r.lastBit? (base ++ "." ++ choice) ((rest.map (pinOf base)).zipIdx (n + 1)) =
      lastRest at hsome htrue ⊢
    by_cases hrest : choice ∈ rest
    · -- The pin is written again later.
      obtain ⟨b, hb⟩ := Option.isSome_iff_exists.1 (hsome.2 hrest)
      rw [hb] at htrue ⊢
      refine ⟨by simp [hrest], htrue.trans ⟨?_, ?_⟩⟩
      · rintro ⟨i, hi, hget, hlast⟩
        exact ⟨i + 1, by omega, hget, hlast⟩
      · rintro ⟨_ | i, hi, hget, hlast⟩
        · exact absurd hrest hlast
        · exact ⟨i, by omega, hget, hlast⟩
    · have hnone : lastRest = none := by simpa [hrest] using hsome
      rw [hnone, Option.none_or]
      by_cases hc : c = choice
      · subst hc
        refine ⟨by simp, ?_⟩
        simp only [if_true, Option.some.injEq, beq_iff_eq]
        constructor
        · intro hn
          exact ⟨0, hn.symm, rfl, hrest⟩
        · rintro ⟨_ | i, hi, hget, -⟩
          · exact hi.symm
          · rw [List.getElem?_cons_succ] at hget
            exact absurd (List.mem_of_getElem? hget) hrest
      · refine ⟨by simp [hc, hrest, Ne.symm hc], ?_⟩
        rw [if_neg hc]
        refine iff_of_false nofun ?_
        rintro ⟨_ | i, -, hget, -⟩
        · exact hc (Option.some.inj hget)
        · rw [List.getElem?_cons_succ] at hget
          exact hrest (List.mem_of_getElem? hget)

/-- After an update without an error every pin is a bit, high just if its choice is selected and
is not repeated. -/
theorem Offers.read_update (h : Offers base names r) (hok : (r.update view).error = none)
    {choice : String} (hmem : choice ∈ names) :
    ∃ b, (r.update view).view.store.read (base ++ "." ++ choice) = .ok (.bit b) ∧
      (b = true ↔ choice = r.choice ∧ ¬ r.IsRepeated) := by
  obtain ⟨hsome, htrue⟩ := lastBit?_zipIdx r base choice names 0
  obtain ⟨b, hb⟩ := Option.isSome_iff_exists.1 (hsome.2 hmem)
  have hread : (r.update view).view.store.read (base ++ "." ++ choice) = _ :=
    read_writePins hok _
  rw [h.pins, hb] at hread
  refine ⟨b, hread, ?_⟩
  rw [hb, Option.some.injEq] at htrue
  refine htrue.trans ⟨?_, ?_⟩
  · rintro ⟨i, hi, hget, hlast⟩
    rw [Nat.zero_add] at hi
    subst hi
    have hchoice := Option.some.inj (hget.symm.trans h.getElem?_selected)
    refine ⟨hchoice, ?_⟩
    rwa [IsRepeated, h.choices, ← hchoice]
  · rintro ⟨rfl, hlast⟩
    refine ⟨r.selected, (Nat.zero_add _).symm, h.getElem?_selected, ?_⟩
    rwa [IsRepeated, h.choices] at hlast

theorem Offers.mem_highPins (h : Offers base names r) (hok : (r.update view).error = none) :
    name ∈ r.highPins (r.update view).view.store ↔
      name = base ++ "." ++ r.choice ∧ ¬ r.IsRepeated := by
  constructor
  · rintro ⟨hmem, hhigh⟩
    rw [h.pins, List.map_map] at hmem
    obtain ⟨choice, hchoice, rfl⟩ := List.mem_map.1 hmem
    obtain ⟨b, hread, hb⟩ := h.read_update hok hchoice
    obtain ⟨rfl, hlast⟩ := hb.1 (Value.bit.inj (Except.ok.inj (hread.symm.trans hhigh)))
    exact ⟨rfl, hlast⟩
  · rintro ⟨rfl, hlast⟩
    have hmem := List.mem_of_getElem? h.getElem?_selected
    obtain ⟨b, hread, hb⟩ := h.read_update hok hmem
    refine ⟨?_, by rw [hread, hb.2 ⟨rfl, hlast⟩]⟩
    rw [h.pins, List.map_map]
    exact List.mem_map_of_mem hmem

theorem Offers.not_isRepeated (h : Offers base names r) (hnames : names.Nodup) :
    ¬ r.IsRepeated := by
  intro hmem
  rw [IsRepeated, h.choices] at hmem
  obtain ⟨i, hi, hget⟩ := List.mem_iff_getElem.1 hmem
  rw [List.getElem_drop] at hget
  have hsame := (List.getElem?_inj h.selected hnames).1
    (h.getElem?_selected.trans (List.getElem?_eq_some_iff.2 ⟨_, hget⟩).symm)
  omega

/-! ## Radio buttons of a panel -/

/-- A radio button that has been made offers the choices of its properties. -/
theorem exists_offers_of_build {b : Binding} {props : Props} {now : Nanos} {e : Element}
    (h : (b.build "radiobutton" props now).1 = .ok e) :
    ∃ r, e = .radioButton r ∧
      Offers (b.takeName props (some ⟨"radiobutton", ""⟩)).1 props.choices r := by
  change (b.build Tag.radiobutton.name props now).1 = .ok e at h
  obtain ⟨design, hdesign, rfl⟩ := Binding.exists_design_of_build h
  simp only [Design.of] at hdesign
  split at hdesign
  · cases hdesign
  · next hchoices =>
    cases hdesign
    exact ⟨_, rfl, offers_new _ (by simpa using hchoices)⟩

/-- **After an update without an error the pin of the selected choice is high, and no other**,
if and only if no later choice has the name of the one that is selected. If one has, no pin is
high. -/
theorem update_oneHot_iff {b : Binding} {props : Props} {now : Nanos} {e : Element}
    (h : (b.build "radiobutton" props now).1 = .ok e) :
    let base := (b.takeName props (some ⟨"radiobutton", ""⟩)).1
    ∃ r, e = .radioButton r ∧ ∀ (steps : List Step) (view : PinView),
      let r' := r.stepAll steps
      let done := r'.update view
      r'.choices = props.choices ∧ r'.pins = props.choices.map (pinOf base) ∧
      r'.selected < props.choices.length ∧
      (done.error = none →
        (∀ pin ∈ r'.pins, ∃ b, done.view.store.read pin.name = .ok (.bit b)) ∧
        (r'.highPins done.view.store = {base ++ "." ++ r'.choice} ↔ ¬ r'.IsRepeated) ∧
        (r'.IsRepeated → r'.highPins done.view.store = ∅) ∧
        (props.choices.Nodup → r'.highPins done.view.store = {base ++ "." ++ r'.choice})) := by
  intro base
  obtain ⟨r, rfl, hnew⟩ := exists_offers_of_build h
  refine ⟨r, rfl, fun steps view => ?_⟩
  have hoffers := hnew.stepAll steps
  refine ⟨hoffers.choices, hoffers.pins, hoffers.selected, fun hok => ?_⟩
  let r' := r.stepAll steps
  have hhigh (name : String) : name ∈ r'.highPins (r'.update view).view.store ↔
      name = base ++ "." ++ r'.choice ∧ ¬ r'.IsRepeated := hoffers.mem_highPins hok
  have honly : ¬ r'.IsRepeated → r'.highPins _ = {base ++ "." ++ r'.choice} := fun hlast =>
    Set.eq_singleton_iff_unique_mem.2
      ⟨(hhigh _).2 ⟨rfl, hlast⟩, fun name hname => ((hhigh name).1 hname).1⟩
  refine ⟨fun pin hpin => ?_, ⟨fun heq => ?_, honly⟩, fun hrepeated => ?_,
    fun hnames => honly (hoffers.not_isRepeated hnames)⟩
  · rw [hoffers.pins] at hpin
    obtain ⟨choice, hchoice, rfl⟩ := List.mem_map.1 hpin
    obtain ⟨b, hread, -⟩ := hoffers.read_update hok hchoice
    exact ⟨b, hread⟩
  · exact ((hhigh _).1 (heq ▸ Set.mem_singleton _)).2
  · exact Set.eq_empty_of_forall_notMem fun name hname => ((hhigh name).1 hname).2 hrepeated

/-- The properties of a radio button on the base name `r`. -/
def onBase (choices : List String) : Props := { pinName := some "r", choices }

/-- The pins that have been made for the radio button. -/
def freshPins (choices : List String) : PinView :=
  ⟨(Binding.build ⟨{}, {}, []⟩ "radiobutton" (onBase choices) 0).2.store, []⟩

theorem update_oneHot_iff_second :
    let r := (new "r" (onBase ["a", "b"])).stepAll [.update (freshPins ["a", "b"]), .select 1]
    (Binding.build ⟨{}, {}, []⟩ "radiobutton" (onBase ["a", "b"]) 0).1 =
        .ok (.radioButton (new "r" (onBase ["a", "b"]))) ∧
      r.highPins (r.update (freshPins ["a", "b"])).view.store = {"r.b"} := by
  intro r
  have hbuild : (Binding.build ⟨{}, {}, []⟩ "radiobutton" (onBase ["a", "b"]) 0).1 =
      .ok (.radioButton (new "r" (onBase ["a", "b"]))) := by rfl
  obtain ⟨_, heq, h⟩ := update_oneHot_iff hbuild
  cases heq
  obtain ⟨-, -, -, hhigh⟩ := h [.update (freshPins ["a", "b"]), .select 1] (freshPins ["a", "b"])
  exact ⟨hbuild, (hhigh rfl).2.2.2 (by decide)⟩

/-- It is not so that the pin of the selected choice is always high: a choice is selected, and
its name comes again. -/
theorem update_not_oneHot :
    ¬ ∀ (b : Binding) (props : Props) (now : Nanos) (e : Element),
      (b.build "radiobutton" props now).1 = .ok e →
        ∃ r, e = .radioButton r ∧ ∀ (steps : List Step) (view : PinView),
          let r' := r.stepAll steps
          let done := r'.update view
          let base := (b.takeName props (some ⟨"radiobutton", ""⟩)).1
          done.error = none → r'.highPins done.view.store = {base ++ "." ++ r'.choice} := by
  intro h
  obtain ⟨r, heq, honeHot⟩ := h ⟨{}, {}, []⟩ (onBase ["a", "b", "a"]) 0
    (.radioButton (new "r" (onBase ["a", "b", "a"]))) rfl
  cases heq
  have hhigh := honeHot [] (freshPins ["a", "b", "a"]) rfl
  have hlow : ((new "r" (onBase ["a", "b", "a"])).update
      (freshPins ["a", "b", "a"])).view.store.read "r.a" = .ok (.bit false) := by rfl
  have hmem := hhigh ▸ Set.mem_singleton "r.a"
  have hread := hlow.symm.trans hmem.2
  cases hread

end MachinePanel.RadioButton
