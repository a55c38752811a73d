/-
The properties of an element, as a panel description gives them. All of them
are optional; each kind of element looks at its own.
-/
import MachinePanel.Element.NumberFormat
import MachinePanel.Json.Decode
import MachinePanel.Json.Parser

namespace MachinePanel

/-- The properties of an element. -/
structure Props where
  /-- The name of its pin, or the base of the names of its pins. -/
  pinName : Option String := none
  /-- It has an input pin that disables it. -/
  disablePin : Bool := false
  format : Option NumberFormat := none
  min : Option Float := none
  max : Option Float := none
  initial : Option Float := none
  resolution : Option Float := none
  choices : List String := []
  images : List String := []
  text : Option String := none
  countsPerTurn : Option UInt32 := none

namespace Props

/-- A format in a record is its text. -/
def formatOfJson? (v : Json) : Option NumberFormat :=
  (Json.asString v).bind fun s => (NumberFormat.parse s).toOption

/-- The fields of the record, some of which have a second name. -/
def recordFields : List Json.Field :=
  [⟨"halpin", []⟩, ⟨"disable_pin", ["disablepin"]⟩, ⟨"format", []⟩, ⟨"min", ["min_"]⟩,
    ⟨"max", ["max_"]⟩, ⟨"initval", []⟩, ⟨"resolution", []⟩, ⟨"choices", []⟩, ⟨"images", []⟩,
    ⟨"text", []⟩, ⟨"cpr", []⟩]

/-- Reads a record; what is missing keeps its default. -/
def ofJson? (v : Json) : Option Props :=
  match Json.fields .defaulted recordFields v with
  | some [pinName, disablePin, format, min, max, initial, resolution, choices, images, text,
      cpr] => do
    let pinName ← Json.optional Json.asString pinName
    let disablePin ← Json.defaulting false Json.asBool disablePin
    let format ← Json.optional formatOfJson? format
    let min ← Json.optional Json.asFloat min
    let max ← Json.optional Json.asFloat max
    let initial ← Json.optional Json.asFloat initial
    let resolution ← Json.optional Json.asFloat resolution
    let choices ← Json.defaulting [] (Json.asList Json.asString) choices
    let images ← Json.defaulting [] (Json.asList Json.asString) images
    let text ← Json.optional Json.asString text
    let countsPerTurn ← Json.optional Json.asUInt32 cpr
    some
      { pinName, disablePin, format, min, max, initial, resolution, choices, images, text,
        countsPerTurn }
  | _ => none

/-- Reads a text. -/
def ofText? (s : String) : Option Props :=
  (Json.parse? s).bind ofJson?

end Props

end MachinePanel
