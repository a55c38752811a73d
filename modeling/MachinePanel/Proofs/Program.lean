/-
What elements do with their pins. An update of an element is a program over
pins: it reads a pin and goes by its value, or it writes a pin, and at each of
them it is settled what becomes of the element should the pin fail.
`update_eq_run` says that every element runs such a program.

An element reads its inputs and writes its signals, the outputs with the types
of the values it writes (`program_obeys`). What it is wired to never changes,
neither by an update nor by what a user does (`act_sameWiring`).
-/
import MachinePanel.Element.Design

namespace MachinePanel

variable {α β : Type}

/-- What an element does with pins in one update. -/
inductive PinProgram (α : Type) where
  | done (element : α) (unknownImage : Option Value)
  | read (pin : Handle) (failed : α) (next : Value → PinProgram α)
  | write (pin : Handle) (value : Value) (failed : α) (next : PinProgram α)

namespace PinProgram

/-- Runs a program on a view of the pins. -/
def run : PinProgram α → PinView → Refresh α
  | done element unknownImage, view => { element, view, unknownImage }
  | read pin failed next, view => view.reading pin failed fun value view => (next value).run view
  | write pin value failed next, view => view.writing pin value failed fun view => next.run view

/-- The same for an element of another type. -/
def map (f : α → β) : PinProgram α → PinProgram β
  | done element unknownImage => done (f element) unknownImage
  | read pin failed next => read pin (f failed) fun value => (next value).map f
  | write pin value failed next => write pin value (f failed) (next.map f)

theorem run_map (f : α → β) (program : PinProgram α) (view : PinView) :
    (program.map f).run view = (program.run view).map f := by
  induction program generalizing view with
  | done element unknownImage => rfl
  | read pin failed next ih =>
    simp only [map, run, PinView.reading]
    split
    · exact ih _ _
    · rfl
  | write pin value failed next ih =>
    simp only [map, run, PinView.writing]
    split
    · exact ih _
    · rfl

/-- The program reads none but the inputs, writes none but the signals, each
with a value of its type, and leaves an element as it should be. -/
def Obeys (inputs : List Handle) (signals : List (Handle × ScalarType)) (leaves : α → Prop) :
    PinProgram α → Prop
  | done element _ => leaves element
  | read pin failed next =>
    pin ∈ inputs ∧ leaves failed ∧ ∀ value, (next value).Obeys inputs signals leaves
  | write pin value failed next =>
    (pin, value.type) ∈ signals ∧ leaves failed ∧ next.Obeys inputs signals leaves

variable {inputs : List Handle} {signals : List (Handle × ScalarType)}

theorem obeys_map {f : α → β} {leaves : β → Prop} {program : PinProgram α} :
    (program.map f).Obeys inputs signals leaves ↔
      program.Obeys inputs signals fun a => leaves (f a) := by
  induction program with
  | done element unknownImage => rfl
  | read pin failed next ih => simp only [map, Obeys, ih]
  | write pin value failed next ih => simp only [map, Obeys, ih]

theorem Obeys.run {leaves : α → Prop} {program : PinProgram α}
    (h : program.Obeys inputs signals leaves) (view : PinView) :
    leaves (program.run view).element := by
  induction program generalizing view with
  | done element unknownImage => exact h
  | read pin failed next ih =>
    simp only [PinProgram.run, PinView.reading]
    split
    · exact ih _ (h.2.2 _) _
    · exact h.2.1
  | write pin value failed next ih =>
    simp only [PinProgram.run, PinView.writing]
    split
    · exact ih h.2.2 _
    · exact h.2.1

end PinProgram

open PinProgram

/-! ## The programs of indicators -/

def Lamp.program (l : Lamp) : PinProgram Lamp :=
  .read l.pin l fun value =>
    let l := { l with state := if value.asBool then .on else .off }
    match l.disable with
    | none => .done l none
    | some pin =>
      .read pin l fun value =>
        .done (if value.asBool then { l with state := .disabled } else l) none

theorem Lamp.update_eq_run (l : Lamp) (view : PinView) : l.update view = l.program.run view := by
  simp only [update, program, run]
  congr 1
  funext value view
  cases l.disable <;> rfl

def NumberLabel.program (n : NumberLabel) : PinProgram NumberLabel :=
  .read n.pin n fun value =>
    if n.shows value then .done n none
    else .done { n with text := n.format.format value.asFloat, value := some value } none

theorem NumberLabel.update_eq_run (n : NumberLabel) (view : PinView) :
    n.update view = n.program.run view := by
  simp only [update, program, run]
  congr 1
  funext value view
  split <;> rfl

def Bar.program (b : Bar) : PinProgram Bar :=
  .read b.pin b fun value =>
    let x := value.asFloat
    if Binary64.same x b.value then .done b none
    else .done { b with value := x, text := valueText x } none

theorem Bar.update_eq_run (b : Bar) (view : PinView) : b.update view = b.program.run view := by
  simp only [update, program, run]
  congr 1
  funext value view
  split <;> rfl

def Meter.program (m : Meter) : PinProgram Meter :=
  .read m.pin m fun value => .done { m with value := value.asFloat } none

def Label.program (l : Label) : PinProgram Label :=
  match l.disable with
  | none => .done l none
  | some pin => .read pin l fun value => .done { l with disabled := value.asBool } none

theorem Label.update_eq_run (l : Label) (view : PinView) : l.update view = l.program.run view := by
  unfold update program
  cases l.disable <;> rfl

def Timer.program (t : Timer) (now : Nanos) : PinProgram Timer :=
  .read t.reset t fun reset =>
    .read t.run t fun run => .done (t.sample reset.asBool run.asBool now) none

def ImageSelector.program (s : ImageSelector) : PinProgram ImageSelector :=
  .read s.pin s fun value =>
    let seen := { s with last := some value }
    if s.repeats value then .done seen none
    else
      match s.position? value with
      | some i => .done { seen with current := some i } none
      | none => .done seen (some value)

theorem ImageSelector.update_eq_run (s : ImageSelector) (view : PinView) :
    s.update view = s.program.run view := by
  simp only [update, program, run]
  congr 1
  funext value view
  split
  · rfl
  · cases s.position? value <;> rfl

/-! ## The programs of controls -/

def Button.flushProgram (b : Button) : PinProgram Button :=
  let done := { b with pending := none }
  match b.pending with
  | some down =>
    if b.disabled then .done done none else .write b.pin (.bit down) done (.done done none)
  | none => .done done none

theorem Button.flush_eq_run (b : Button) (view : PinView) :
    b.flush view = b.flushProgram.run view := by
  unfold flush flushProgram
  cases b.pending with
  | none => rfl
  | some down =>
    simp only
    split <;> rfl

def Button.program (b : Button) : PinProgram Button :=
  match b.disable with
  | none => b.flushProgram
  | some pin => .read pin b fun value => { b with disabled := value.asBool }.flushProgram

theorem Button.update_eq_run (b : Button) (view : PinView) :
    b.update view = b.program.run view := by
  unfold update program
  cases b.disable with
  | none => exact b.flush_eq_run view
  | some pin => simp only [run, flush_eq_run]

def CheckButton.program (b : CheckButton) : PinProgram CheckButton :=
  .write b.pin (.bit b.checked) b (.done b none)

def SpinBox.program (s : SpinBox) : PinProgram SpinBox :=
  .write s.pin (.float s.range.value) s
    (.done { s with text := s.format.format s.range.value } none)

def Scale.program (s : Scale) : PinProgram Scale :=
  .write s.floatPin (.float s.range.value) s (.write s.intPin (.s32 s.intValue) s (.done s none))

def Dial.program (d : Dial) : PinProgram Dial :=
  .write d.pin (.float d.value) d (.done d none)

def JogWheel.program (w : JogWheel) : PinProgram JogWheel :=
  .write w.pin (.float (Float.ofInt w.count)) w (.done w none)

def RadioButton.pinsProgram (r : RadioButton) : List (Handle × Nat) → PinProgram RadioButton
  | [] => .done r none
  | (pin, i) :: rest => .write pin (.bit (i == r.selected)) r (r.pinsProgram rest)

theorem RadioButton.writePins_eq_run (r : RadioButton) (pins : List (Handle × Nat))
    (view : PinView) : r.writePins pins view = (r.pinsProgram pins).run view := by
  induction pins generalizing view with
  | nil => rfl
  | cons p rest ih => simp only [writePins, pinsProgram, run, ih]

/-! ## The programs of elements -/

namespace Element

/-- What an element does with its pins when it is updated. -/
def program (now : Nanos) : Element → PinProgram Element
  | lamp l => l.program.map lamp
  | number n => n.program.map number
  | bar b => b.program.map bar
  | meter m => m.program.map meter
  | label l => l.program.map label
  | timer t => (t.program now).map timer
  | image s => s.program.map image
  | button b => b.program.map button
  | checkButton b => b.program.map checkButton
  | spinBox s => s.program.map spinBox
  | scale s => s.program.map scale
  | dial d => d.program.map dial
  | jogWheel w => w.program.map jogWheel
  | radioButton r => (r.pinsProgram r.pins.zipIdx).map radioButton
  | container kind => .done (container kind) none

/-- **Every element runs a program over its pins.** -/
theorem update_eq_run (e : Element) (now : Nanos) (view : PinView) :
    e.update now view = (e.program now).run view := by
  cases e with
  | lamp l => rw [update, program, run_map, Lamp.update_eq_run]
  | number n => rw [update, program, run_map, NumberLabel.update_eq_run]
  | bar b => rw [update, program, run_map, Bar.update_eq_run]
  | label l => rw [update, program, run_map, Label.update_eq_run]
  | image s => rw [update, program, run_map, ImageSelector.update_eq_run]
  | button b => rw [update, program, run_map, Button.update_eq_run]
  | radioButton r => rw [update, program, run_map, RadioButton.update, RadioButton.writePins_eq_run]
  | container kind => rfl
  | meter | timer | checkButton | spinBox | scale | dial | jogWheel =>
    rw [update, program, run_map]
    rfl

/-- The pins an element reads. -/
def inputs : Element → List Handle
  | lamp l => l.pins
  | number n => n.pins
  | bar b => b.pins
  | meter m => m.pins
  | label l => l.pins
  | timer t => t.pins
  | image s => s.pins
  | button b => b.disable.toList
  | _ => []

/-- The pins an element writes, each with the type of its values. -/
def signals : Element → List (Handle × ScalarType)
  | button b => [(b.pin, .bit)]
  | checkButton b => [(b.pin, .bit)]
  | spinBox s => [(s.pin, .float)]
  | scale s => [(s.intPin, .s32), (s.floatPin, .float)]
  | dial d => [(d.pin, .float)]
  | jogWheel w => [(w.pin, .float)]
  | radioButton r => r.pins.map (·, .bit)
  | _ => []

/-- The pins an element writes. -/
def outputs (e : Element) : List Handle :=
  e.signals.map (·.1)

theorem mem_pins {e : Element} {pin : Handle} :
    pin ∈ e.pins ↔ pin ∈ e.inputs ∨ pin ∈ e.outputs := by
  cases e <;>
    simp [pins, inputs, outputs, signals, Button.pins, CheckButton.pins, SpinBox.pins, Scale.pins,
      Dial.pins, JogWheel.pins, or_comm]

/-- The elements have the same pins, and use them in the same way. -/
structure SameWiring (e e' : Element) : Prop where
  pins : e'.pins = e.pins
  inputs : e'.inputs = e.inputs
  signals : e'.signals = e.signals

theorem SameWiring.refl (e : Element) : SameWiring e e := ⟨rfl, rfl, rfl⟩

theorem SameWiring.trans {e e' e'' : Element} (h : SameWiring e e') (h' : SameWiring e' e'') :
    SameWiring e e'' :=
  ⟨h'.pins.trans h.pins, h'.inputs.trans h.inputs, h'.signals.trans h.signals⟩

theorem SameWiring.outputs {e e' : Element} (h : SameWiring e e') : e'.outputs = e.outputs := by
  rw [Element.outputs, Element.outputs, h.signals]

theorem lamp_obeys (l : Lamp) :
    l.program.Obeys l.pins [] fun l' => SameWiring (.lamp l) (.lamp l') := by
  obtain ⟨shape, pin, disable, state⟩ := l
  refine ⟨by simp [Lamp.pins], .refl _, fun value => ?_⟩
  cases disable with
  | none => exact ⟨rfl, rfl, rfl⟩
  | some disable =>
    refine ⟨by simp [Lamp.pins], ⟨rfl, rfl, rfl⟩, fun value => ?_⟩
    simp only [Obeys]
    split <;> exact ⟨rfl, rfl, rfl⟩

theorem sample_sameWiring (t : Timer) (reset run : Bool) (now : Nanos) :
    SameWiring (.timer t) (.timer (t.sample reset run now)) := by
  have hreset : SameWiring (.timer t) (.timer (t.sampleReset reset now)) := by
    unfold Timer.sampleReset
    split
    · exact .refl _
    · split <;> exact ⟨rfl, rfl, rfl⟩
  have hrun : ∀ t : Timer, SameWiring (.timer t) (.timer (t.sampleRun run now)) := fun t => by
    unfold Timer.sampleRun
    split
    · exact .refl _
    · split <;> exact ⟨rfl, rfl, rfl⟩
  exact hreset.trans ((hrun _).trans ⟨rfl, rfl, rfl⟩)

theorem image_obeys (s : ImageSelector) :
    s.program.Obeys s.pins [] fun s' => SameWiring (.image s) (.image s') := by
  refine ⟨by simp [ImageSelector.pins], .refl _, fun value => ?_⟩
  simp only
  split
  · exact ⟨rfl, rfl, rfl⟩
  · split <;> exact ⟨rfl, rfl, rfl⟩

theorem flush_obeys {e : Element} {b : Button} (h : SameWiring e (.button b))
    (inputs : List Handle) :
    b.flushProgram.Obeys inputs [(b.pin, .bit)] fun b' => SameWiring e (.button b') := by
  have hdone : SameWiring e (.button { b with pending := none }) := h.trans ⟨rfl, rfl, rfl⟩
  unfold Button.flushProgram
  cases b.pending with
  | none => exact hdone
  | some down =>
    simp only
    split
    · exact hdone
    · exact ⟨by simp [Value.type], hdone, hdone⟩

theorem button_obeys (b : Button) :
    b.program.Obeys b.disable.toList [(b.pin, .bit)] fun b' =>
      SameWiring (.button b) (.button b') := by
  obtain ⟨pin, disable, disabled, pending⟩ := b
  cases disable with
  | none => exact flush_obeys (.refl _) _
  | some disable =>
    refine ⟨by simp, .refl _, fun value => ?_⟩
    have hsame : SameWiring (.button ⟨pin, some disable, disabled, pending⟩)
        (.button ⟨pin, some disable, value.asBool, pending⟩) := ⟨rfl, rfl, rfl⟩
    exact flush_obeys hsame _

theorem pins_obeys (r : RadioButton) (pins : List (Handle × Nat))
    (hsub : ∀ p ∈ pins, p.1 ∈ r.pins) :
    (r.pinsProgram pins).Obeys [] (r.pins.map (·, .bit)) fun r' =>
      SameWiring (.radioButton r) (.radioButton r') := by
  induction pins with
  | nil => exact .refl _
  | cons p rest ih =>
    have hp : p.1 ∈ r.pins := hsub p (by simp)
    exact ⟨List.mem_map_of_mem hp, .refl _, ih fun q hq => hsub q (by simp [hq])⟩

/-- **An element reads its inputs and writes its signals**, and its wiring stays as it is. -/
theorem program_obeys (e : Element) (now : Nanos) :
    (e.program now).Obeys e.inputs e.signals (SameWiring e) := by
  cases e with
  | lamp l => exact obeys_map.2 (lamp_obeys l)
  | number n =>
    refine obeys_map.2 ⟨by simp [inputs, NumberLabel.pins], .refl _, fun value => ?_⟩
    simp only
    split <;> exact ⟨rfl, rfl, rfl⟩
  | bar b =>
    refine obeys_map.2 ⟨by simp [inputs, Bar.pins], .refl _, fun value => ?_⟩
    simp only
    split <;> exact ⟨rfl, rfl, rfl⟩
  | meter m =>
    exact obeys_map.2 ⟨by simp [inputs, Meter.pins], .refl _, fun value => ⟨rfl, rfl, rfl⟩⟩
  | label l =>
    obtain ⟨text, disable, disabled⟩ := l
    refine obeys_map.2 ?_
    cases disable with
    | none => exact .refl _
    | some pin =>
      exact ⟨by simp [inputs, Label.pins], .refl _, fun value => ⟨rfl, rfl, rfl⟩⟩
  | timer t =>
    refine obeys_map.2 ⟨by simp [inputs, Timer.pins], .refl _, fun reset => ?_⟩
    exact ⟨by simp [inputs, Timer.pins], .refl _, fun run => sample_sameWiring t _ _ now⟩
  | image s => exact obeys_map.2 (image_obeys s)
  | button b => exact obeys_map.2 (button_obeys b)
  | scale s =>
    exact obeys_map.2 ⟨by simp [signals, Value.type], .refl _, by simp [signals, Value.type],
      .refl _, .refl _⟩
  | radioButton r =>
    exact obeys_map.2 (pins_obeys r _ fun p hp => List.fst_mem_of_mem_zipIdx hp)
  | container kind => exact .refl _
  | checkButton | spinBox | dial | jogWheel =>
    exact obeys_map.2 ⟨by simp [signals, Value.type], .refl _, ⟨rfl, rfl, rfl⟩⟩

theorem update_sameWiring (e : Element) (now : Nanos) (view : PinView) :
    SameWiring e (e.update now view).element := by
  rw [update_eq_run]
  exact (program_obeys e now).run view

/-! ## Users -/

theorem move_sameWiring (b : Button) (down : Bool) :
    SameWiring (.button b) (.button (b.move down)) := by
  unfold Button.move
  split
  · exact .refl _
  · exact ⟨rfl, rfl, rfl⟩

theorem act_sameWiring {e e' : Element} {action : UserAction} (h : e.act action = some (.ok e')) :
    SameWiring e e' := by
  unfold act at h
  split at h
  case h_19 r index =>
    simp only [RadioButton.select] at h
    split at h
    · cases h
      exact ⟨rfl, rfl, rfl⟩
    · cases h
  case h_1 | h_2 =>
    cases h
    exact move_sameWiring _ _
  case h_20 => cases h
  all_goals
    cases h
    exact ⟨rfl, rfl, rfl⟩

theorem actTimes_sameWiring {e e' : Element} {action : UserAction} {n : Nat}
    (h : e.actTimes action n = some (.ok e')) : SameWiring e e' := by
  fun_induction actTimes action n e with
  | case1 e =>
    cases ha : e.act action with
    | none => simp [ha] at h
    | some r =>
      simp only [ha, Option.map_some, Option.some.injEq, Except.ok.injEq] at h
      exact h ▸ .refl e
  | case2 e => exact act_sameWiring h
  | case3 n e e₁ ha ih => exact (act_sameWiring ha).trans (ih h)
  | case4 n e hr => exact act_sameWiring h

end Element

end MachinePanel
