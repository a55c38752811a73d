/-
Status events and snapshots as records. An event is a tagged value: its form in
kebab case under `event`, and what it carries under `payload`.
-/
import MachinePanel.Json.Decode
import MachinePanel.Machine.Changes
import MachinePanel.Text.Kebab

namespace MachinePanel

/-- A string, or nothing. -/
def Json.optionalText : Option String → Json
  | none => .null
  | some s => .text s

namespace StatusEvent

/-- The events that carry nothing. -/
def plain : List StatusEvent :=
  [estop, estopReset, on, off, modeManual, modeAuto, modeMdi, interpRun, interpIdle,
    interpReading, interpPaused, interpWaiting, allHomed, reloadDisplay]

/-- The form of an event. -/
def form : StatusEvent → String
  | estop => "Estop"
  | estopReset => "EstopReset"
  | on => "On"
  | off => "Off"
  | modeManual => "ModeManual"
  | modeAuto => "ModeAuto"
  | modeMdi => "ModeMdi"
  | interpRun => "InterpRun"
  | interpIdle => "InterpIdle"
  | interpReading => "InterpReading"
  | interpPaused => "InterpPaused"
  | interpWaiting => "InterpWaiting"
  | homed _ => "Homed"
  | allHomed => "AllHomed"
  | notAllHomed _ => "NotAllHomed"
  | fileLoaded _ => "FileLoaded"
  | lineChanged _ => "LineChanged"
  | toolChanged _ => "ToolChanged"
  | reloadDisplay => "ReloadDisplay"

/-- The tag of an event in records. -/
def tag (e : StatusEvent) : String :=
  Text.kebab e.form

/-- What an event carries. -/
def payload? : StatusEvent → Option Json
  | homed joints | notAllHomed joints => some (.arr (joints.map .nat))
  | fileLoaded path => some (.optionalText path)
  | lineChanged n | toolChanged n => some (.int n.toInt)
  | _ => none

/-- The record of an event. -/
def toJson (e : StatusEvent) : Json :=
  .record (("event", .text e.tag) :: (e.payload?.map ("payload", ·)).toList)

/-- An event that carries nothing has no content, or `null`. -/
def ofPlain? (tag : String) : Option Json → Option StatusEvent
  | none | some .null => plain.find? (·.tag == tag)
  | _ => none

/-- The event of a name and a content. -/
def ofParts? (tag : String) (content : Option Json) : Option StatusEvent :=
  let joints := Json.required (Json.asList (Json.asNat .u64)) content
  let number := Json.required Json.asInt32 content
  if tag = "homed" then joints.map homed
  else if tag = "not-all-homed" then joints.map notAllHomed
  else if tag = "file-loaded" then (Json.optional Json.asString content).map fileLoaded
  else if tag = "line-changed" then number.map lineChanged
  else if tag = "tool-changed" then number.map toolChanged
  else ofPlain? tag content

/-- Reads the record of an event. -/
def ofJson? (v : Json) : Option StatusEvent :=
  (Json.tagged "event" "payload" v).bind fun (tag, content) => ofParts? tag content

end StatusEvent

namespace AxisMask

/-- Reads the bits of a mask. -/
def ofJson? (v : Json) : Option AxisMask :=
  (Json.asUInt32 v).map AxisMask.mk

end AxisMask

namespace Snapshot

/-- The record of a snapshot. -/
def toJson (s : Snapshot) : Json :=
  .record
    [("run_state", .text s.runState.name), ("mode", .text s.mode.name),
      ("interp_state", .text s.interpState.name), ("homed", .arr (s.homed.map .bool)),
      ("axis_mask", .nat s.axisMask.bits.toNat), ("loaded_file", .optionalText s.loadedFile),
      ("current_line", .int s.currentLine.toInt), ("active_tool", .int s.activeTool.toInt)]

/-- The fields of the record. -/
def recordFields : List Json.Field :=
  [⟨"run_state", []⟩, ⟨"mode", []⟩, ⟨"interp_state", []⟩, ⟨"homed", []⟩, ⟨"axis_mask", []⟩,
    ⟨"loaded_file", []⟩, ⟨"current_line", []⟩, ⟨"active_tool", []⟩]

/-- Reads a record. Only the loaded file may be missing. -/
def ofJson? (v : Json) : Option Snapshot :=
  match Json.fields .strict recordFields v with
  | some [runState, mode, interpState, homed, axisMask, loadedFile, currentLine, activeTool] => do
    let runState ← Json.required (Json.asNamed RunState.ofName?) runState
    let mode ← Json.required (Json.asNamed TaskMode.ofName?) mode
    let interpState ← Json.required (Json.asNamed InterpState.ofName?) interpState
    let homed ← Json.required (Json.asList Json.asBool) homed
    let axisMask ← Json.required AxisMask.ofJson? axisMask
    let loadedFile ← Json.optional Json.asString loadedFile
    let currentLine ← Json.required Json.asInt32 currentLine
    let activeTool ← Json.required Json.asInt32 activeTool
    some { runState, mode, interpState, homed, axisMask, loadedFile, currentLine, activeTool }
  | _ => none

end Snapshot

end MachinePanel
