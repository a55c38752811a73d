/-
The commands of a scenario: everything that can be asked of a panel, by the
part that is asked. A listener is subscribed together with the commands it
will carry out, so commands may contain commands; so may a view of the pins,
between whose reads other things may happen.
-/
import MachinePanel.Panel.Setup
import MachinePanel.Scenario.Answer

namespace MachinePanel.Scenario

/-- Commands to the store, and to handles on it. -/
inductive StoreCommand where
  | create (pin : Handle)
  | read (name : String)
  | write (name : String) (value : Value)
  | drive (name : String) (value : Value)
  | remove (name : String)
  | contains (name : String)
  | describe (name : String)
  | names
  | slots
  | handle (pin : Handle)
  | createHandle (pin : Handle)
  | readHandle (pin : Handle)
  | writeHandle (pin : Handle) (value : Value)

/-- Commands to the pin watcher. -/
inductive PinsCommand where
  | register (pin : Handle)
  | newPin (pin : Handle)
  | unregister (name : String)
  | watched
  | poll
  | update
  | enable (driven : Bool)
  | disable
  | setEnabled (on : Bool)
  | clock

/-- An edit of a snapshot: the fields that are given replace those that are there. -/
structure SnapshotEdit where
  runState : Option RunState := none
  mode : Option TaskMode := none
  interpState : Option InterpState := none
  homed : Option (List Bool) := none
  axisMask : Option AxisMask := none
  loadedFile : Option (Option String) := none
  currentLine : Option Int32 := none
  activeTool : Option Int32 := none

/-- Applies an edit. -/
def SnapshotEdit.apply (e : SnapshotEdit) (s : Snapshot) : Snapshot where
  runState := e.runState.getD s.runState
  mode := e.mode.getD s.mode
  interpState := e.interpState.getD s.interpState
  homed := e.homed.getD s.homed
  axisMask := e.axisMask.getD s.axisMask
  loadedFile := e.loadedFile.getD s.loadedFile
  currentLine := e.currentLine.getD s.currentLine
  activeTool := e.activeTool.getD s.activeTool

/-- Commands to the snapshot cell. -/
inductive CellCommand where
  | set (s : Snapshot)
  | modify (edit : SnapshotEdit)
  | fail (reason : String)
  | get
  | poll

/-- Commands to the status watcher. -/
inductive StatusCommand where
  | update
  | snapshot
  | reload
  | setPolicy (policy : HomingPolicy)
  | policy
  | start (driven : Bool)
  | stop
  | running

/-- Commands to a bus, other than subscribing. -/
inductive BusCommand where
  | unsubscribe (id : Nat)
  | emit (name : String) (notice : Notice)
  | clear
  | state (name : String)

/-- The parts of a panel that can be described. -/
inductive Part where
  | store
  | pins
  | status
  | driver
  | forest
  | binder
  | free

/-- Commands to the driver. -/
inductive DriverCommand where
  | tick
  | start (driven : Bool)
  | stop
  | state
  | describe (part : Part)

/-- Commands to the binder. -/
inductive BinderCommand where
  | fresh
  | baseName (family : String) (given : Option String)
  | bind (pin : Handle)
  | disablePin (base : String) (enabled : Bool)
  | created
  | takeCreated

/-- Properties as they are given for an element: as fields, with the format
still as text, or as the text of a record. -/
inductive Draft where
  | fields (props : Props) (format : Option String)
  | record (text : String)

/-- The properties of a draft, or the answer that they are none. -/
def Draft.resolve : Draft → Except Answer Props
  | fields props none => .ok props
  | fields props (some format) =>
    match NumberFormat.parse format with
    | .ok format => .ok { props with format := some format }
    | .error e => .error (.valueError e)
  | record text =>
    match Props.ofText? text with
    | some props => .ok props
    | none => .error .malformed

/-- Commands to the elements. -/
inductive ElementCommand where
  /-- Adds an element where its parent is. -/
  | add (parent : Option Nat) (tag : String) (draft : Draft)
  /-- Makes an element first and attaches it then. -/
  | addChild (parent : Option Nat) (tag : String) (draft : Draft)
  | update
  | forest
  | children (id : Nat)
  | element (id : Nat)
  | elements
  | act (id : Nat) (action : UserAction) (times : Nat)

/-- What a listener is subscribed to: notices as a whole, or what one kind of
notice carries. -/
inductive Topic where
  /-- The notices that pass a filter. -/
  | notices (filter : Filter)
  /-- The homed joints. -/
  | homed
  /-- The joints that are not homed. -/
  | notAllHomed
  /-- The loaded file. -/
  | fileLoaded
  /-- The program line. -/
  | lineChanged
  /-- The tool. -/
  | toolChanged
  /-- The name of a pin, whenever its value has changed. -/
  | valueChanged (pin : String)
  deriving DecidableEq, Repr

/-- The filter of a subscription to a topic. A topic of one kind of event is
emitted under the name of that event. -/
def Topic.filter : Topic → Filter
  | notices filter => filter
  | homed => .named (StatusEvent.homed []).name
  | notAllHomed => .named (StatusEvent.notAllHomed []).name
  | fileLoaded => .named (StatusEvent.fileLoaded none).name
  | lineChanged => .named (StatusEvent.lineChanged 0).name
  | toolChanged => .named (StatusEvent.toolChanged 0).name
  | valueChanged pin => .named pin

/-- Steps on one view of the pins; `γ` are the commands that may come between. -/
inductive ViewStep (γ : Type) where
  | read (pin : Handle)
  | readBool (pin : Handle)
  | readFloat (pin : Handle)
  | write (pin : Handle) (value : Value)
  | command (c : γ)

/-- A command. -/
inductive Command where
  | store (c : StoreCommand)
  | pins (c : PinsCommand)
  | cell (c : CellCommand)
  | status (c : StatusCommand)
  | bus (channel : Channel) (c : BusCommand)
  | driver (c : DriverCommand)
  | binder (c : BinderCommand)
  | elements (c : ElementCommand)
  /-- Several steps on one view of the pins. -/
  | view (steps : List (ViewStep Command))
  /-- Subscribes a listener that carries out its actions on its first calls, `limit` of them. -/
  | subscribe (channel : Channel) (label : String) (topic : Topic) (limit : Nat)
      (actions : List Command)
  /-- Panics, with a message or without. -/
  | panic (message : Option String)

/-! ## Calls -/

mutual

/-- How many listener calls that carry out actions a command can lead to: those
of the listener it subscribes, and those its actions lead to each time. -/
def Command.calls : Command → Nat
  | .view steps => viewCalls steps
  | .subscribe _ _ _ limit actions => limit * (1 + actionCalls actions)
  | _ => 0

/-- The calls several commands can lead to. -/
def actionCalls : List Command → Nat
  | [] => 0
  | c :: cs => c.calls + actionCalls cs

/-- The calls steps on a view can lead to. -/
def viewCalls : List (ViewStep Command) → Nat
  | [] => 0
  | s :: rest => stepCalls s + viewCalls rest

/-- The calls a step on a view can lead to. -/
def stepCalls : ViewStep Command → Nat
  | .command c => c.calls
  | _ => 0

end

end MachinePanel.Scenario
