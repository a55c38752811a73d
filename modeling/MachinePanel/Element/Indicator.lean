/-
Indicators: the elements that show what stands on their input pins.
-/
import MachinePanel.Binary64.Order
import MachinePanel.Element.Props
import MachinePanel.Element.Refresh
import MachinePanel.Time

namespace MachinePanel

/-- The pin that disables an element, if its properties ask for one. -/
def disablePin (base : String) (props : Props) : Option Handle :=
  if props.disablePin then some ⟨base ++ ".disable", .input, .bit⟩ else none

/-- A range of which neither bound is NaN and the lower is below the upper. -/
def checkRange (min max : Float) : Except ValueError Unit :=
  if min < max then .ok () else .error (.invalidProperty (.emptyRange min max))

/-! ## Lamps -/

/-- The shape of a lamp. -/
inductive LampShape where
  | round
  | rectangular
  deriving DecidableEq, Repr

/-- What a lamp shows. -/
inductive LampState where
  | off
  | on
  | disabled
  deriving DecidableEq, Repr

/-- A lamp that lights when its pin is high, and that a second pin may disable. -/
structure Lamp where
  shape : LampShape
  pin : Handle
  disable : Option Handle
  state : LampState := .off

namespace Lamp

/-- A new lamp. -/
def new (shape : LampShape) (base : String) (props : Props) : Lamp where
  shape := shape
  pin := ⟨base, .input, .bit⟩
  disable := disablePin base props

/-- Its pins. -/
def pins (l : Lamp) : List Handle :=
  l.pin :: l.disable.toList

/-- Follows the pin first and is disabled afterwards. -/
def update (l : Lamp) (view : PinView) : Refresh Lamp :=
  view.reading l.pin l fun value view =>
    let l := { l with state := if value.asBool then .on else .off }
    match l.disable with
    | none => { element := l, view }
    | some pin =>
      view.reading pin l fun value view =>
        { element := if value.asBool then { l with state := .disabled } else l, view }

end Lamp

/-! ## Numbers -/

/-- The type of number that is shown. -/
inductive NumberKind where
  | float
  | signed
  | unsigned
  deriving DecidableEq, Repr

/-- The pin type of a kind of number. -/
def NumberKind.type : NumberKind → ScalarType
  | float => .float
  | signed => .s32
  | unsigned => .u32

/-- The format of a kind of number. -/
def NumberKind.format : NumberKind → NumberFormat
  | float => .float
  | signed | unsigned => .integer

/-- A number in a format. Its text is written again only when the value changes. -/
structure NumberLabel where
  kind : NumberKind
  pin : Handle
  format : NumberFormat
  value : Option Value := none
  text : String

namespace NumberLabel

/-- A new number, which shows zero. -/
def new (kind : NumberKind) (base : String) (props : Props) : NumberLabel :=
  let format := props.format.getD kind.format
  { kind, pin := ⟨base, .input, kind.type⟩, format, text := format.format 0.0 }

/-- Its pin. -/
def pins (n : NumberLabel) : List Handle := [n.pin]

/-- The value is the one shown. -/
def shows (n : NumberLabel) (value : Value) : Bool :=
  match n.value with
  | none => false
  | some shown => shown == value

/-- Shows the value of the pin. -/
def update (n : NumberLabel) (view : PinView) : Refresh NumberLabel :=
  view.reading n.pin n fun value view =>
    if n.shows value then { element := n, view }
    else
      { element := { n with text := n.format.format value.asFloat, value := some value }, view }

end NumberLabel

/-! ## Bars -/

/-- A bar that is filled between two bounds, with the value as text. -/
structure Bar where
  pin : Handle
  min : Float
  max : Float
  value : Float := 0.0
  text : String

namespace Bar

/-- The text of a value. -/
def valueText (x : Float) : String :=
  Text.alignRight 3 (Binary64.fixedText 1 x)

/-- A new bar, which stands at zero. -/
def new (min max : Float) (base : String) : Bar where
  pin := ⟨base, .input, .float⟩
  min := min
  max := max
  text := valueText 0.0

/-- Its pin. -/
def pins (b : Bar) : List Handle := [b.pin]

/-- The filled part. -/
def fill (b : Bar) : Float :=
  Binary64.clamp 0.0 1.0 ((b.value - b.min) / (b.max - b.min))

/-- Shows the value of the pin. -/
def update (b : Bar) (view : PinView) : Refresh Bar :=
  view.reading b.pin b fun value view =>
    let x := value.asFloat
    if Binary64.same x b.value then { element := b, view }
    else { element := { b with value := x, text := valueText x }, view }

end Bar

/-! ## Meters -/

/-- One turn. -/
def fullTurn : Float := 6.283185307179586

/-- A quarter turn. -/
def quarterTurn : Float := fullTurn / 4.0

/-- A needle between two bounds. -/
structure Meter where
  pin : Handle
  min : Float
  max : Float
  value : Float := 0.0

namespace Meter

/-- How far the needle swings to either side of upright. -/
def halfSweep : Float := 2.5

/-- The needle's stop at the lower bound. -/
def lowStop : Float := -quarterTurn - halfSweep

/-- The needle's stop at the upper bound. -/
def highStop : Float := -quarterTurn + halfSweep

/-- A new meter, which stands at zero. -/
def new (min max : Float) (name : String) : Meter where
  pin := ⟨name, .input, .float⟩
  min := min
  max := max

/-- Its pin. -/
def pins (m : Meter) : List Handle := [m.pin]

/-- The angle of the needle. -/
def angle (m : Meter) : Float :=
  let fraction := (m.value - m.min) / (m.max - m.min)
  Binary64.clamp lowStop highStop (lowStop + fraction * (highStop - lowStop))

/-- Shows the value of the pin. -/
def update (m : Meter) (view : PinView) : Refresh Meter :=
  view.reading m.pin m fun value view => { element := { m with value := value.asFloat }, view }

end Meter

/-! ## Labels -/

/-- A fixed text, which a pin may disable. -/
structure Label where
  text : String
  disable : Option Handle
  disabled : Bool := false

namespace Label

/-- A new label. -/
def new (base : String) (props : Props) : Label where
  text := props.text.getD ""
  disable := disablePin base props

/-- Its pin, if it has one. -/
def pins (l : Label) : List Handle := l.disable.toList

/-- Follows the pin that disables it. -/
def update (l : Label) (view : PinView) : Refresh Label :=
  match l.disable with
  | none => { element := l, view }
  | some pin =>
    view.reading pin l fun value view => { element := { l with disabled := value.asBool }, view }

end Label

/-! ## Timers -/

/-- A stopwatch: it runs while one pin is high, and is set back when another rises. -/
structure Timer where
  reset : Handle
  run : Handle
  lastReset : Bool := false
  lastRun : Bool := false
  /-- When it was last started or set back. -/
  started : Nanos
  /-- The time counted before that. -/
  base : Nanos := 0
  text : String

namespace Timer

/-- A new timer, which stands still. -/
def new (base : String) (now : Nanos) : Timer where
  reset := ⟨base ++ ".reset", .input, .bit⟩
  run := ⟨base ++ ".run", .input, .bit⟩
  started := now
  text := Nanos.hoursMinutesSeconds 0

/-- Its pins. -/
def pins (t : Timer) : List Handle := [t.reset, t.run]

/-- The time counted at a moment. -/
def elapsed (t : Timer) (now : Nanos) : Nanos :=
  if t.lastRun then t.base + (now - t.started) else t.base

/-- Takes in the reset pin: a rise starts the count again. -/
def sampleReset (t : Timer) (reset : Bool) (now : Nanos) : Timer :=
  if reset = t.lastReset then t
  else if reset then { t with lastReset := reset, base := 0, started := now }
  else { t with lastReset := reset }

/-- Takes in the run pin: a rise goes on counting, a fall adds what was counted. -/
def sampleRun (t : Timer) (run : Bool) (now : Nanos) : Timer :=
  if run = t.lastRun then t
  else if run then { t with lastRun := run, started := now }
  else { t with lastRun := run, base := t.base + (now - t.started) }

/-- Takes in both pins and shows the time. -/
def sample (t : Timer) (reset run : Bool) (now : Nanos) : Timer :=
  let t := (t.sampleReset reset now).sampleRun run now
  { t with text := Nanos.hoursMinutesSeconds (t.elapsed now) }

/-- Reads both pins before it takes them in. -/
def update (t : Timer) (now : Nanos) (view : PinView) : Refresh Timer :=
  view.reading t.reset t fun reset view =>
    view.reading t.run t fun run view =>
      { element := t.sample reset.asBool run.asBool now, view }

end Timer

/-! ## Images -/

/-- What selects an image: a bit or a number. -/
inductive ImageKind where
  | bit
  | word
  deriving DecidableEq, Repr

/-- The pin type of a kind of selector. -/
def ImageKind.type : ImageKind → ScalarType
  | bit => .bit
  | word => .u32

/-- A choice of images by the value of a pin. A value that selects none leaves
the image as it is. -/
structure ImageSelector where
  kind : ImageKind
  pin : Handle
  images : List String
  last : Option Value := none
  current : Option Nat := none

namespace ImageSelector

/-- A new selector, which shows no image. -/
def new (kind : ImageKind) (base : String) (props : Props) : ImageSelector where
  kind := kind
  pin := ⟨base, .input, kind.type⟩
  images := props.images

/-- Its pin. -/
def pins (s : ImageSelector) : List Handle := [s.pin]

/-- The name of the image shown. -/
def image (s : ImageSelector) : Option String :=
  s.current.bind (s.images[·]?)

/-- The value is the one read before. -/
def repeats (s : ImageSelector) (value : Value) : Bool :=
  match s.last with
  | none => false
  | some last => last == value

/-- The position a value selects. -/
def position? (s : ImageSelector) (value : Value) : Option Nat :=
  value.asIndex.filter (· < s.images.length)

/-- Shows the image of the pin's value. An unknown value is reported when it appears. -/
def update (s : ImageSelector) (view : PinView) : Refresh ImageSelector :=
  view.reading s.pin s fun value view =>
    let seen := { s with last := some value }
    if s.repeats value then { element := seen, view }
    else
      match s.position? value with
      | some i => { element := { seen with current := some i }, view }
      | none => { element := seen, view, unknownImage := some value }

end ImageSelector

end MachinePanel
