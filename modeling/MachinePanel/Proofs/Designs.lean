/-
What the designs make. The pins that are made for an element go by its tag, and
the element is made apart from them. `pins_eq_blueprint` says that the two agree:
whatever its properties, a new element has exactly the pins of its tag's
blueprint, in that order, on a base name that is found as its tag wants. And it
takes them for inputs and outputs as they were made (`wired_element`).
-/
import MachinePanel.Proofs.Program

namespace MachinePanel

namespace Element

/-- The pins of an element are inputs and outputs where it takes them for such,
and the outputs have the types of the values it writes. -/
structure Wired (e : Element) : Prop where
  inputs : ∀ pin ∈ e.inputs, pin.direction = .input
  signals : ∀ s ∈ e.signals, s.1.direction = .output ∧ s.1.type = s.2

/-- An element that writes nothing is wired if its inputs are. -/
theorem Wired.of_inputs {e : Element} (hsignals : e.signals = [])
    (h : ∀ pin ∈ e.inputs, pin.direction = .input) : e.Wired :=
  ⟨h, by simp [hsignals]⟩

/-- An element that reads nothing is wired if what it writes is. -/
theorem Wired.of_signals {e : Element} (hinputs : e.inputs = [])
    (h : ∀ s ∈ e.signals, s.1.direction = .output ∧ s.1.type = s.2) : e.Wired :=
  ⟨by simp [hinputs], h⟩

theorem SameWiring.wired {e e' : Element} (h : SameWiring e e') (hw : e.Wired) : e'.Wired where
  inputs := h.inputs ▸ hw.inputs
  signals := h.signals ▸ hw.signals

theorem direction_of_mem_disablePin {base : String} {props : Props} {pin : Handle}
    (h : pin ∈ disablePin base props) : pin.direction = .input := by
  unfold disablePin at h
  split at h
  · cases h
    rfl
  · cases h

theorem exists_of_bind_ok {ε α β : Type} {x : Except ε α} {f : α → Except ε β} {b : β}
    (h : x >>= f = .ok b) : ∃ a, x = .ok a ∧ f a = .ok b := by
  cases x with
  | error e => cases h
  | ok a => exact ⟨a, rfl, h⟩

theorem wired_lamp (shape : LampShape) (base : String) (props : Props) :
    (lamp (.new shape base props)).Wired := by
  refine .of_inputs rfl fun pin hpin => ?_
  rcases List.mem_cons.1 hpin with rfl | hpin
  · rfl
  · exact direction_of_mem_disablePin (Option.mem_toList.1 hpin)

theorem wired_label (base : String) (props : Props) : (label (.new base props)).Wired :=
  .of_inputs rfl fun _ hpin => direction_of_mem_disablePin (Option.mem_toList.1 hpin)

theorem wired_button (base : String) (props : Props) : (button (.new base props)).Wired := by
  refine ⟨fun _ hpin => direction_of_mem_disablePin (Option.mem_toList.1 hpin), ?_⟩
  simp [signals, Button.new]

theorem wired_radioButton (base : String) (props : Props) :
    (radioButton (.new base props)).Wired := by
  refine .of_signals rfl ?_
  simp [signals, RadioButton.new]

/-- **Whatever its properties, a new element is wired.** -/
theorem wired_element {props : Props} {tag : Tag} {design : Design}
    (h : Design.of props tag = .ok design) (base : String) (now : Nanos) :
    (design.element base now).Wired := by
  cases tag with
  | led | rectled =>
    cases h
    exact wired_lamp _ base props
  | label =>
    cases h
    exact wired_label base props
  | button =>
    cases h
    exact wired_button base props
  | radiobutton =>
    simp only [Design.of] at h
    split at h
    · cases h
    · cases h
      exact wired_radioButton base props
  | number | s32 | u32 | timer | imageBit | imageU32 =>
    cases h
    exact .of_inputs rfl (by simp [Design.named, inputs, NumberLabel.pins, NumberLabel.new,
      Timer.pins, Timer.new, ImageSelector.pins, ImageSelector.new])
  | checkbutton =>
    cases h
    exact .of_signals rfl (by simp [Design.named, signals, CheckButton.new])
  | vbox | hbox | labelframe | tabs | table =>
    cases h
    exact .of_inputs rfl (by simp [Design.holding, inputs])
  | bar | meter =>
    obtain ⟨⟨min, max⟩, -, hd⟩ := exists_of_bind_ok h
    cases hd
    exact .of_inputs rfl (by simp [Design.named, Design.single, inputs, Bar.pins, Bar.new,
      Meter.pins, Meter.new])
  | spinbox | scale =>
    obtain ⟨range, -, hd⟩ := exists_of_bind_ok h
    cases hd
    exact .of_signals rfl (by simp [Design.named, signals, SpinBox.new, Scale.new])
  | dial =>
    obtain ⟨⟨min, max⟩, -, hd⟩ := exists_of_bind_ok h
    obtain ⟨-, -, hd⟩ := exists_of_bind_ok hd
    obtain ⟨detent, -, hd⟩ := exists_of_bind_ok hd
    cases hd
    exact .of_signals rfl (by simp [Design.single, signals, Dial.new])
  | jogwheel =>
    obtain ⟨detent, -, hd⟩ := exists_of_bind_ok h
    cases hd
    exact .of_signals rfl (by simp [Design.single, signals, JogWheel.new])

end Element

/-! ## Blueprints -/

/-- How the base name of an element is found, if it needs one. -/
def Tag.naming (props : Props) : Tag → Option Naming
  | led | rectled => some ⟨"led", ""⟩
  | number | s32 | u32 | imageBit | imageU32 => some ⟨"number", ""⟩
  | bar => some ⟨"bar", ""⟩
  | meter => some ⟨"meter", ".value"⟩
  | label => if props.disablePin then some ⟨"label", ""⟩ else none
  | timer => some ⟨"timer", ""⟩
  | button => some ⟨"button", ""⟩
  | checkbutton => some ⟨"checkbutton", ""⟩
  | spinbox => some ⟨"spinbox", ""⟩
  | scale => some ⟨"scale", ""⟩
  | dial => some ⟨"dial", ".out"⟩
  | jogwheel => some ⟨"jogwheel", ".count"⟩
  | radiobutton => some ⟨"radiobutton", ""⟩
  | vbox | hbox | labelframe | tabs | table => none

open Element (exists_of_bind_ok)

/-- **A new element has the pins of its blueprint**, and its name is found as its tag wants. -/
theorem Design.pins_eq_blueprint {props : Props} {tag : Tag} {design : Design}
    (h : Design.of props tag = .ok design) :
    design.naming = tag.naming props ∧
      ∀ base now, (design.element base now).pins = tag.blueprint props base := by
  cases tag with
  | bar | meter =>
    obtain ⟨⟨min, max⟩, -, hd⟩ := exists_of_bind_ok h
    cases hd
    exact ⟨rfl, fun _ _ => rfl⟩
  | spinbox | scale =>
    obtain ⟨range, -, hd⟩ := exists_of_bind_ok h
    cases hd
    exact ⟨rfl, fun _ _ => rfl⟩
  | dial =>
    obtain ⟨⟨min, max⟩, -, hd⟩ := exists_of_bind_ok h
    obtain ⟨-, -, hd⟩ := exists_of_bind_ok hd
    obtain ⟨detent, -, hd⟩ := exists_of_bind_ok hd
    cases hd
    exact ⟨rfl, fun _ _ => rfl⟩
  | jogwheel =>
    obtain ⟨detent, -, hd⟩ := exists_of_bind_ok h
    cases hd
    exact ⟨rfl, fun _ _ => rfl⟩
  | radiobutton =>
    simp only [Design.of] at h
    split at h
    · cases h
    · cases h
      exact ⟨rfl, fun _ _ => rfl⟩
  | _ =>
    cases h
    exact ⟨rfl, fun _ _ => rfl⟩

end MachinePanel
