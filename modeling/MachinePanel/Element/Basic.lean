/-
The elements of a panel: indicators, controls, and containers, which only hold
other elements. Every element knows its tag, its pins, how to update itself,
and what a user may do to it.
-/
import MachinePanel.Element.Control
import MachinePanel.Element.Tag

namespace MachinePanel

/-- The kinds of containers. -/
inductive ContainerKind where
  | vbox
  | hbox
  | labelframe
  | tabs
  | table
  deriving DecidableEq, Repr

/-- The tag of a kind of container. -/
def ContainerKind.tag : ContainerKind → Tag
  | vbox => .vbox
  | hbox => .hbox
  | labelframe => .labelframe
  | tabs => .tabs
  | table => .table

/-- An element of a panel. -/
inductive Element where
  | lamp (l : Lamp)
  | number (n : NumberLabel)
  | bar (b : Bar)
  | meter (m : Meter)
  | label (l : Label)
  | timer (t : Timer)
  | image (s : ImageSelector)
  | button (b : Button)
  | checkButton (b : CheckButton)
  | spinBox (s : SpinBox)
  | scale (s : Scale)
  | dial (d : Dial)
  | jogWheel (w : JogWheel)
  | radioButton (r : RadioButton)
  | container (kind : ContainerKind)

/-- What a user does to a control. -/
inductive UserAction where
  | press
  | release
  | toggle
  | setChecked (checked : Bool)
  | up
  | down
  | set (x : Float)
  | finer
  | coarser
  | resetResolution
  | resetValue
  | select (index : Nat)

namespace Element

/-- The tag an element was made for. -/
def tag : Element → Tag
  | lamp l => match l.shape with
    | .round => .led
    | .rectangular => .rectled
  | number n => match n.kind with
    | .float => .number
    | .signed => .s32
    | .unsigned => .u32
  | bar _ => .bar
  | meter _ => .meter
  | label _ => .label
  | timer _ => .timer
  | image s => match s.kind with
    | .bit => .imageBit
    | .word => .imageU32
  | button _ => .button
  | checkButton _ => .checkbutton
  | spinBox _ => .spinbox
  | scale _ => .scale
  | dial _ => .dial
  | jogWheel _ => .jogwheel
  | radioButton _ => .radiobutton
  | container kind => kind.tag

/-- The pins of an element, in the order they are made. -/
def pins : Element → List Handle
  | lamp l => l.pins
  | number n => n.pins
  | bar b => b.pins
  | meter m => m.pins
  | label l => l.pins
  | timer t => t.pins
  | image s => s.pins
  | button b => b.pins
  | checkButton b => b.pins
  | spinBox s => s.pins
  | scale s => s.pins
  | dial d => d.pins
  | jogWheel w => w.pins
  | radioButton r => r.pins
  | container _ => []

/-- One update, at a moment, through the view of the round. -/
def update (now : Nanos) (view : PinView) : Element → Refresh Element
  | lamp l => (l.update view).map lamp
  | number n => (n.update view).map number
  | bar b => (b.update view).map bar
  | meter m => (m.update view).map meter
  | label l => (l.update view).map label
  | timer t => (t.update now view).map timer
  | image s => (s.update view).map image
  | button b => (b.update view).map button
  | checkButton b => (b.update view).map checkButton
  | spinBox s => (s.update view).map spinBox
  | scale s => (s.update view).map scale
  | dial d => (d.update view).map dial
  | jogWheel w => (w.update view).map jogWheel
  | radioButton r => (r.update view).map radioButton
  | container kind => { element := container kind, view }

/-- What a user's action makes of an element, if it takes such an action. -/
def act : Element → UserAction → Option (Except ValueError Element)
  | button b, .press => some (.ok (button b.press))
  | button b, .release => some (.ok (button b.release))
  | checkButton b, .toggle => some (.ok (checkButton b.toggle))
  | checkButton b, .setChecked checked => some (.ok (checkButton (b.setChecked checked)))
  | spinBox s, .up => some (.ok (spinBox (s.adjust Range.up)))
  | spinBox s, .down => some (.ok (spinBox (s.adjust Range.down)))
  | spinBox s, .set x => some (.ok (spinBox (s.adjust (·.set x))))
  | scale s, .up => some (.ok (scale (s.adjust Range.up)))
  | scale s, .down => some (.ok (scale (s.adjust Range.down)))
  | scale s, .set x => some (.ok (scale (s.adjust (·.set x))))
  | dial d, .up => some (.ok (dial d.up))
  | dial d, .down => some (.ok (dial d.down))
  | dial d, .finer => some (.ok (dial d.finer))
  | dial d, .coarser => some (.ok (dial d.coarser))
  | dial d, .resetResolution => some (.ok (dial d.resetResolution))
  | dial d, .resetValue => some (.ok (dial d.resetValue))
  | jogWheel w, .up => some (.ok (jogWheel w.up))
  | jogWheel w, .down => some (.ok (jogWheel w.down))
  | radioButton r, .select index => some ((r.select index).map radioButton)
  | _, _ => none

/-- The same action several times; an error ends it. -/
def actTimes (action : UserAction) : Nat → Element → Option (Except ValueError Element)
  | 0, e => (e.act action).map fun _ => .ok e
  | 1, e => e.act action
  | n + 2, e =>
    match e.act action with
    | some (.ok e) => actTimes action (n + 1) e
    | r => r

end Element

end MachinePanel
