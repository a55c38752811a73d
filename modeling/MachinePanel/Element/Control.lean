/-
Controls: the elements a user acts on, which write output pins when they are
updated.
-/
import MachinePanel.Element.Indicator

namespace MachinePanel

/-! ## Buttons -/

/-- A push button, which a pin may disable. What the user does is kept until
the next update. -/
structure Button where
  pin : Handle
  disable : Option Handle
  disabled : Bool := false
  pending : Option Bool := none

namespace Button

/-- A new button. -/
def new (base : String) (props : Props) : Button where
  pin := ⟨base, .output, .bit⟩
  disable := disablePin base props

/-- Its pins. -/
def pins (b : Button) : List Handle :=
  b.pin :: b.disable.toList

/-- Holds or releases the button; a disabled button does not move. -/
def move (b : Button) (down : Bool) : Button :=
  if b.disabled then b else { b with pending := some down }

/-- Holds the button. -/
def press (b : Button) : Button := b.move true

/-- Releases the button. -/
def release (b : Button) : Button := b.move false

/-- Writes what is pending, unless the button is disabled. Either way nothing stays pending. -/
def flush (b : Button) (view : PinView) : Refresh Button :=
  let done := { b with pending := none }
  match b.pending with
  | some down =>
    if b.disabled then { element := done, view }
    else view.writing b.pin (.bit down) done fun view => { element := done, view }
  | none => { element := done, view }

/-- Follows the pin that disables it before it writes. -/
def update (b : Button) (view : PinView) : Refresh Button :=
  match b.disable with
  | none => b.flush view
  | some pin =>
    view.reading pin b fun value view => { b with disabled := value.asBool }.flush view

end Button

/-- A button that stays in. -/
structure CheckButton where
  pin : Handle
  checked : Bool

namespace CheckButton

/-- A new check button; an initial value of a half and more checks it. -/
def new (base : String) (props : Props) : CheckButton where
  pin := ⟨base, .output, .bit⟩
  checked := decide (0.5 ≤ props.initial.getD 0.0)

/-- Its pin. -/
def pins (b : CheckButton) : List Handle := [b.pin]

/-- Checks or clears it. -/
def setChecked (b : CheckButton) (checked : Bool) : CheckButton :=
  { b with checked }

/-- Moves it to the other state. -/
def toggle (b : CheckButton) : CheckButton :=
  { b with checked := !b.checked }

/-- Writes its state. -/
def update (b : CheckButton) (view : PinView) : Refresh CheckButton :=
  view.writing b.pin (.bit b.checked) b fun view => { element := b, view }

end CheckButton

/-! ## Ranges -/

/-- The step of a control: a positive number. -/
def checkResolution (step : Float) : Except ValueError Unit :=
  if step ≤ 0.0 || !step.isFinite then .error (.invalidProperty (.badResolution step)) else .ok ()

/-- A value that moves in steps between two bounds. -/
structure Range where
  min : Float
  max : Float
  step : Float
  value : Float

namespace Range

/-- The range of the properties, with a default for the upper bound. -/
def ofProps (props : Props) (defaultMax : Float) : Except ValueError Range := do
  let min := props.min.getD 0.0
  let max := props.max.getD defaultMax
  checkRange min max
  let step := props.resolution.getD 1.0
  checkResolution step
  return { min, max, step, value := Binary64.clamp min max (props.initial.getD 0.0) }

/-- Sets the value, as far as the bounds allow; NaN is ignored. -/
def set (r : Range) (x : Float) : Range :=
  if x.isNaN then r else { r with value := Binary64.clamp r.min r.max x }

/-- One step up. -/
def up (r : Range) : Range := r.set (r.value + r.step)

/-- One step down. -/
def down (r : Range) : Range := r.set (r.value - r.step)

end Range

/-- A number to be set, shown as text. -/
structure SpinBox where
  pin : Handle
  range : Range
  format : NumberFormat
  text : String

namespace SpinBox

/-- A new spin box. -/
def new (range : Range) (base : String) (props : Props) : SpinBox :=
  let format := props.format.getD .float
  { pin := ⟨base, .output, .float⟩, range, format, text := format.format range.value }

/-- Its pin. -/
def pins (s : SpinBox) : List Handle := [s.pin]

/-- Changes the value. -/
def adjust (s : SpinBox) (f : Range → Range) : SpinBox :=
  { s with range := f s.range }

/-- Writes the value and then shows it. -/
def update (s : SpinBox) (view : PinView) : Refresh SpinBox :=
  view.writing s.pin (.float s.range.value) s fun view =>
    { element := { s with text := s.format.format s.range.value }, view }

end SpinBox

/-- A slider, which gives its value as a float and as an integer. -/
structure Scale where
  intPin : Handle
  floatPin : Handle
  range : Range

namespace Scale

/-- A new scale. -/
def new (range : Range) (base : String) : Scale where
  intPin := ⟨base ++ "-i", .output, .s32⟩
  floatPin := ⟨base ++ "-f", .output, .float⟩
  range := range

/-- Its pins. -/
def pins (s : Scale) : List Handle := [s.intPin, s.floatPin]

/-- Changes the value. -/
def adjust (s : Scale) (f : Range → Range) : Scale :=
  { s with range := f s.range }

/-- The value as an integer of 32 bits, toward zero. -/
def intValue (s : Scale) : Int32 :=
  Int32.ofInt (Binary64.toIntWithin .s32 s.range.value)

/-- Writes the float first and the integer second. -/
def update (s : Scale) (view : PinView) : Refresh Scale :=
  view.writing s.floatPin (.float s.range.value) s fun view =>
    view.writing s.intPin (.s32 s.intValue) s fun view => { element := s, view }

end Scale

/-! ## Wheels -/

/-- The number of detents of a wheel that gives none. -/
def defaultCountsPerTurn : UInt32 := 40

/-- The angle between two detents of a wheel. -/
def detentAngle (props : Props) : Except ValueError Float :=
  let counts := props.countsPerTurn.getD defaultCountsPerTurn
  if counts = 0 then .error (.invalidProperty .noDetents)
  else .ok (fullTurn / Float.ofNat counts.toNat)

/-- A dial: a wheel that moves a value along the multiples of its resolution,
which may be made finer and coarser. -/
structure Dial where
  pin : Handle
  min : Float
  max : Float
  initial : Float
  resolution : Float
  initialResolution : Float
  detent : Float
  angle : Float := 0.0
  value : Float

namespace Dial

/-- The nearest multiple of the resolution. -/
def snap (x resolution : Float) : Float :=
  Binary64.round (x / resolution) * resolution

/-- The part of the resolution by which a value may miss a multiple. -/
def slack : Float := 1e-6

/-- A new dial. -/
def new (min max resolution detent : Float) (name : String) (props : Props) : Dial :=
  let initial := props.initial.getD 0.0
  { pin := ⟨name, .output, .float⟩, min, max, initial, resolution,
    initialResolution := resolution, detent, value := snap initial resolution }

/-- Its pin. -/
def pins (d : Dial) : List Handle := [d.pin]

/-- Takes a new value, and turns the wheel if it is another one. -/
def turn (d : Dial) (value detent : Float) : Dial :=
  { d with
    angle := if Binary64.same value d.value then d.angle else d.angle + detent
    value }

/-- To the next multiple above, at most to the upper bound. -/
def up (d : Dial) : Dial :=
  let counts := Binary64.floor (d.value / d.resolution + d.resolution * slack) + 1.0
  d.turn (Binary64.least (counts * d.resolution) d.max) d.detent

/-- To the next multiple below, at most to the lower bound. -/
def down (d : Dial) : Dial :=
  let counts := Binary64.ceil (d.value / d.resolution - d.resolution * slack) - 1.0
  d.turn (Binary64.greatest (counts * d.resolution) d.min) (-d.detent)

/-- Makes the steps ten times smaller. -/
def finer (d : Dial) : Dial :=
  { d with resolution := d.resolution / 10.0 }

/-- Makes the steps ten times larger. -/
def coarser (d : Dial) : Dial :=
  { d with resolution := d.resolution * 10.0 }

/-- Goes back to the first resolution. -/
def resetResolution (d : Dial) : Dial :=
  { d with resolution := d.initialResolution }

/-- Goes back to the first value, at the resolution of now. -/
def resetValue (d : Dial) : Dial :=
  { d with value := snap d.initial d.resolution }

/-- Writes the value. -/
def update (d : Dial) (view : PinView) : Refresh Dial :=
  view.writing d.pin (.float d.value) d fun view => { element := d, view }

end Dial

/-- A jog wheel: it counts its detents. -/
structure JogWheel where
  pin : Handle
  detent : Float
  angle : Float := 0.0
  count : Int := 0

namespace JogWheel

/-- A new jog wheel. -/
def new (detent : Float) (name : String) : JogWheel where
  pin := ⟨name, .output, .float⟩
  detent := detent

/-- Its pin. -/
def pins (w : JogWheel) : List Handle := [w.pin]

/-- One detent up. -/
def up (w : JogWheel) : JogWheel :=
  { w with count := w.count + 1, angle := w.angle + w.detent }

/-- One detent down. -/
def down (w : JogWheel) : JogWheel :=
  { w with count := w.count - 1, angle := w.angle - w.detent }

/-- Writes the count. -/
def update (w : JogWheel) (view : PinView) : Refresh JogWheel :=
  view.writing w.pin (.float (Float.ofInt w.count)) w fun view => { element := w, view }

end JogWheel

/-! ## Radio buttons -/

/-- One choice of several, each with a pin that is high while it is chosen. -/
structure RadioButton where
  choices : List String
  pins : List Handle
  selected : Nat

namespace RadioButton

/-- The choice the properties begin with: the first one unless they say better. -/
def initialChoice (props : Props) : Nat :=
  match props.initial with
  | none => 0
  | some x =>
    if 0.0 ≤ x then
      let index := (Binary64.toIntWithin .u64 x).toNat
      if index < props.choices.length then index else 0
    else 0

/-- A new radio button. -/
def new (base : String) (props : Props) : RadioButton where
  choices := props.choices
  pins := props.choices.map fun choice => ⟨base ++ "." ++ choice, .output, .bit⟩
  selected := initialChoice props

/-- The choice that is selected. -/
def choice (r : RadioButton) : String :=
  r.choices.getD r.selected ""

/-- Selects a choice. -/
def select (r : RadioButton) (index : Nat) : Except ValueError RadioButton :=
  if index < r.choices.length then .ok { r with selected := index }
  else .error (.invalidProperty (.noSuchChoice index r.choices.length))

/-- Writes pins in order, the selected one high, until one fails. -/
def writePins (r : RadioButton) : List (Handle × Nat) → PinView → Refresh RadioButton
  | [], view => { element := r, view }
  | (pin, i) :: rest, view =>
    view.writing pin (.bit (i == r.selected)) r fun view => r.writePins rest view

/-- Writes all its pins. -/
def update (r : RadioButton) (view : PinView) : Refresh RadioButton :=
  r.writePins r.pins.zipIdx view

end RadioButton

end MachinePanel
