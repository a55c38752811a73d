/-
The designs of elements: what the properties of an element have to satisfy,
how its pins are named, which pins are made for it, and what it is like when it
is new.

The names of pins grow from a base name. An element that is given a name has
it for its base; any other takes the next number of its family, in some
families with an ending. The blueprint of a tag lists the pins that are made,
in the order they are made; the element itself is settled by the design alone.
-/
import MachinePanel.Element.Basic

namespace MachinePanel

/-- The family a generated name is numbered in, and what follows the number. -/
structure Naming where
  family : String
  ending : String := ""
  deriving DecidableEq, Repr

/-- A blueprint: the pins that are made for an element on a base name, in the order they
are made. -/
def Tag.blueprint (props : Props) (base : String) : Tag → List Handle
  | led | rectled => ⟨base, .input, .bit⟩ :: (disablePin base props).toList
  | number | bar | meter => [⟨base, .input, .float⟩]
  | s32 => [⟨base, .input, .s32⟩]
  | u32 | imageU32 => [⟨base, .input, .u32⟩]
  | imageBit => [⟨base, .input, .bit⟩]
  | label => (disablePin base props).toList
  | timer => [⟨base ++ ".reset", .input, .bit⟩, ⟨base ++ ".run", .input, .bit⟩]
  | button => ⟨base, .output, .bit⟩ :: (disablePin base props).toList
  | checkbutton => [⟨base, .output, .bit⟩]
  | spinbox | dial | jogwheel => [⟨base, .output, .float⟩]
  | scale => [⟨base ++ "-i", .output, .s32⟩, ⟨base ++ "-f", .output, .float⟩]
  | radiobutton => props.choices.map fun choice => ⟨base ++ "." ++ choice, .output, .bit⟩
  | vbox | hbox | labelframe | tabs | table => []

/-- A design: how the base name is found, if one is needed, and the element
that stands on it. -/
structure Design where
  naming : Option Naming
  element : (base : String) → (now : Nanos) → Element

namespace Design

/-- An element whose pins grow from a base name. -/
def named (family : String) (element : String → Element) : Design :=
  ⟨some ⟨family, ""⟩, fun base _ => element base⟩

/-- An element with one pin, whose generated name has an ending. -/
def single (family ending : String) (element : String → Element) : Design :=
  ⟨some ⟨family, ending⟩, fun base _ => element base⟩

/-- A container. -/
def holding (kind : ContainerKind) : Design :=
  ⟨none, fun _ _ => .container kind⟩

/-- The bounds of an indicator. -/
def bounds (props : Props) (defaultMin defaultMax : Float) : Except ValueError (Float × Float) := do
  let min := props.min.getD defaultMin
  let max := props.max.getD defaultMax
  checkRange min max
  return (min, max)

/-- The dial the properties describe. -/
def dial (props : Props) : Except ValueError Design := do
  let (min, max) ← bounds props (-1e20) 1e20
  let resolution := props.resolution.getD 0.1
  checkResolution resolution
  let detent ← detentAngle props
  return single "dial" ".out" fun name => .dial (.new min max resolution detent name props)

/-- The design of an element. The properties are checked before any name is
taken; of a label, a name is taken only for the pin that disables it. -/
def of (props : Props) : Tag → Except ValueError Design
  | .led => return named "led" fun base => .lamp (.new .round base props)
  | .rectled => return named "led" fun base => .lamp (.new .rectangular base props)
  | .number => return named "number" fun base => .number (.new .float base props)
  | .s32 => return named "number" fun base => .number (.new .signed base props)
  | .u32 => return named "number" fun base => .number (.new .unsigned base props)
  | .bar => do
    let (min, max) ← bounds props 0.0 100.0
    return named "bar" fun base => .bar (.new min max base)
  | .meter => do
    let (min, max) ← bounds props 0.0 100.0
    return single "meter" ".value" fun name => .meter (.new min max name)
  | .label =>
    .ok
      { naming := if props.disablePin then some ⟨"label", ""⟩ else none
        element := fun base _ => .label (.new base props) }
  | .timer => return ⟨some ⟨"timer", ""⟩, fun base now => .timer (.new base now)⟩
  | .imageBit => return named "number" fun base => .image (.new .bit base props)
  | .imageU32 => return named "number" fun base => .image (.new .word base props)
  | .button => return named "button" fun base => .button (.new base props)
  | .checkbutton => return named "checkbutton" fun base => .checkButton (.new base props)
  | .spinbox => do
    let range ← Range.ofProps props 100.0
    return named "spinbox" fun base => .spinBox (.new range base props)
  | .scale => do
    let range ← Range.ofProps props 10.0
    return named "scale" fun base => .scale (.new range base)
  | .dial => dial props
  | .jogwheel => do
    let detent ← detentAngle props
    return single "jogwheel" ".count" fun name => .jogWheel (.new detent name)
  | .radiobutton =>
    if props.choices.isEmpty then .error (.invalidProperty .noChoices)
    else return named "radiobutton" fun base => .radioButton (.new base props)
  | .vbox => return holding .vbox
  | .hbox => return holding .hbox
  | .labelframe => return holding .labelframe
  | .tabs => return holding .tabs
  | .table => return holding .table

end Design

end MachinePanel
