/-
The tags under which elements are known in a panel description.
-/

namespace MachinePanel

/-- A kind of element. -/
inductive Tag where
  | led
  | rectled
  | number
  | s32
  | u32
  | bar
  | meter
  | label
  | timer
  | imageBit
  | imageU32
  | button
  | checkbutton
  | spinbox
  | scale
  | dial
  | jogwheel
  | radiobutton
  | vbox
  | hbox
  | labelframe
  | tabs
  | table
  deriving DecidableEq, Repr

namespace Tag

/-- All tags, in the order they are listed in. -/
def all : List Tag :=
  [led, rectled, number, s32, u32, bar, meter, label, timer, imageBit, imageU32, button,
    checkbutton, spinbox, scale, dial, jogwheel, radiobutton, vbox, hbox, labelframe, tabs, table]

/-- The name of a tag. -/
def name : Tag → String
  | led => "led"
  | rectled => "rectled"
  | number => "number"
  | s32 => "s32"
  | u32 => "u32"
  | bar => "bar"
  | meter => "meter"
  | label => "label"
  | timer => "timer"
  | imageBit => "image_bit"
  | imageU32 => "image_u32"
  | button => "button"
  | checkbutton => "checkbutton"
  | spinbox => "spinbox"
  | scale => "scale"
  | dial => "dial"
  | jogwheel => "jogwheel"
  | radiobutton => "radiobutton"
  | vbox => "vbox"
  | hbox => "hbox"
  | labelframe => "labelframe"
  | tabs => "tabs"
  | table => "table"

/-- The tag of a name. -/
def ofName? (s : String) : Option Tag :=
  all.find? (·.name == s)

theorem mem_all (t : Tag) : t ∈ all := by
  cases t <;> decide

theorem ofName?_name (t : Tag) : ofName? t.name = some t := by
  cases t <;> decide +kernel

end Tag

end MachinePanel
