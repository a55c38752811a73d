/-
Carrying out commands. What a command does is fixed once it is known how
listeners react; how they react is in turn what their actions do. The knot is
tied by counting: a reaction may lead to further ones only so many deep, and
`Scenario.run` allows as many as the commands can lead to.
-/
import MachinePanel.Panel.Describe
import MachinePanel.Scenario.Listener

namespace MachinePanel.Scenario

/-- What a part of the panel answers, and the panel afterwards. -/
abbrev Reply := Answer × Stage

/-- Stores what a successful operation makes of the store. -/
def storeReply (s : Stage) : Except PinError PinStore → Reply
  | .ok store => (.done, { s with store })
  | .error e => (.pinError e, s)

/-- Carries out a command to the store. -/
def StoreCommand.perform (c : StoreCommand) (s : Stage) : Reply :=
  match c with
  | create pin =>
    let (r, s) := s.createPin pin
    (.ofPin (fun _ => .done) r, s)
  | read name => (.ofPin .value (s.store.read name), s)
  | write name value => storeReply s (s.store.write name value)
  | drive name value => storeReply s (s.store.drive name value)
  | remove name =>
    let (removed, store) := s.store.remove name
    (.flag removed, { s with store })
  | contains name => (.flag (s.store.contains name), s)
  | describe name =>
    match s.store.slot? name with
    | some slot => (.described slot.direction slot.type, s)
    | none => (.nothing, s)
  | names => (.names s.store.names, s)
  | slots => (.slots (s.store.names.filterMap fun n => (s.store.slot? n).map (n, ·)), s)
  | handle pin => (.handle pin, s)
  | createHandle pin =>
    let (r, s) := s.createPin pin
    (.ofPin (fun _ => .handle pin) r, s)
  | readHandle pin => (.ofPin .value (s.store.readAs pin), s)
  | writeHandle pin value => storeReply s (s.store.write pin.name value)

/-- Carries out a command to the pin watcher. -/
def PinsCommand.perform (react : Reaction Listener Memory) (c : PinsCommand) (s : Stage) : Reply :=
  match c with
  | register pin => (.done, s.register pin)
  | newPin pin =>
    let (r, s) := s.newPin pin
    (.ofPin (fun _ => .handle pin) r, s)
  | unregister name =>
    let (removed, s) := s.unregister name
    (.flag removed, s)
  | watched => (.names (s.pins.list.map (·.pin.name)), s)
  | poll =>
    let (n, s) := s.pollPins react
    (.count n, s)
  | update =>
    let (passed, s) := s.updatePins react
    (.flag passed, s)
  | enable driven =>
    let (r, s) := s.enablePins driven
    (.ofPanel .flag r, s)
  | disable => (.done, s.disablePins)
  | setEnabled on => (.done, s.setPinsEnabled on)
  | clock => (.watcherClock s.pins.enabled s.pins.clock.ticks, s)

/-- Answers with a snapshot, if there is one. -/
def snapshotAnswer : Option Snapshot → Answer
  | some s => .snapshot s
  | none => .nothing

/-- Carries out a command to the cell. -/
def CellCommand.perform (c : CellCommand) (s : Stage) : Reply :=
  match c with
  | set snapshot => (.done, { s with cell := s.cell.set snapshot })
  | modify edit => (.done, { s with cell := s.cell.modify edit.apply })
  | fail reason => (.done, { s with cell := s.cell.fail reason })
  | get => (snapshotAnswer s.cell.snapshot, s)
  | poll =>
    match s.cell.poll with
    | .ok snapshot => (.snapshot snapshot, s)
    | .error e => (.sourceError e, s)

/-- Carries out a command to the status watcher. -/
def StatusCommand.perform (react : Reaction Listener Memory) (c : StatusCommand) (s : Stage) :
    Reply :=
  match c with
  | update => (.flag true, s.updateStatus react)
  | snapshot => (snapshotAnswer s.status.cached, s)
  | reload => (.done, s.requestReload react)
  | setPolicy p => (.done, s.setPolicy p)
  | policy => (.policy s.status.policy, s)
  | start driven =>
    let (r, s) := s.startClock .status driven
    (.ofPanel .flag r, s)
  | stop =>
    let (stopped, s) := s.stopClock .status
    (.flag stopped, s)
  | running => (.flag s.status.clock.running, s)

/-- Carries out a command to a bus. -/
def BusCommand.perform (react : Reaction Listener Memory) (channel : Channel) (c : BusCommand)
    (s : Stage) : Reply :=
  match c with
  | unsubscribe id =>
    let (removed, s) := s.unsubscribe channel id
    (.flag removed, s)
  | emit name notice =>
    let (n, s) := s.emit react .request channel name notice
    (.count n, s)
  | clear => (.done, s.clear channel)
  | state name =>
    let bus := s.bus channel
    (.busState bus.size (bus.listenerCount name), s)

/-- The description of a part. -/
def Part.text (s : Stage) : Part → String
  | store => s.store.text
  | pins => s.pins.text
  | status => s.status.text
  | driver => s.driver.text s.pins
  | forest => s.driver.forest.text
  | binder => s.binder.text
  | free => busText s.free.size

/-- Carries out a command to the driver. -/
def DriverCommand.perform (react : Reaction Listener Memory) (c : DriverCommand) (s : Stage) :
    Reply :=
  match c with
  | tick =>
    let (report, s) := s.tick react
    (.tick report, s)
  | start driven =>
    let (r, s) := s.startDriver driven
    (.ofPanel .flag r, s)
  | stop =>
    let (stopped, s) := s.stopClock .driver
    (.flag stopped, s)
  | state =>
    let d := s.driver
    (.driverState d.clock.running d.clock.ticks d.config d.hasStatus s.pins.list.length, s)
  | describe part => (.text (part.text s), s)

/-- Binds a pin and answers with its handle. -/
def bindReply (s : Stage) (pin : Handle) : Reply :=
  match s.bindPin pin with
  | (.ok (), s) => (.handle pin, s)
  | (.error e, s) => (.panelError (.pin e), s)

/-- Carries out a command to the binder. -/
def BinderCommand.perform (c : BinderCommand) (s : Stage) : Reply :=
  match c with
  | fresh => (.done, { s with binder := {} })
  | baseName family given =>
    let (name, binder) := s.binder.baseName given ⟨family, ""⟩
    (.text name, { s with binder })
  | bind pin => bindReply s pin
  | disablePin base enabled =>
    match MachinePanel.disablePin base { disablePin := enabled } with
    | some pin => bindReply s pin
    | none => (.nothing, s)
  | created => (.handles s.binder.created, s)
  | takeCreated =>
    let (pins, binder) := s.binder.takeCreated
    (.handles pins, { s with binder })

/-- Adds an element of a draft. -/
def addReply (s : Stage) (draft : Draft)
    (add : Props → Except PanelError Nat × Stage) : Reply :=
  match draft.resolve with
  | .error a => (a, s)
  | .ok props =>
    let (r, s) := add props
    (.ofPanel .elementId r, s)

/-- Carries out a command to the elements. -/
def ElementCommand.perform (c : ElementCommand) (s : Stage) : Reply :=
  let f := s.driver.forest
  match c with
  | add parent tag draft => addReply s draft fun props => s.addElement parent tag props
  | addChild parent tag draft => addReply s draft fun props => s.addBuilt parent tag props
  | update =>
    let (count, s) := s.updateElements
    (.updates count, s)
  | forest => (.forest f, s)
  | children id => (.indices (f.children id), s)
  | element id =>
    match f.element? id with
    | some e => (.element e s.now, s)
    | none => (.nothing, s)
  | elements =>
    (.elements (f.traversal.filterMap fun id => (f.element? id).map (id, ·)) s.now, s)
  | act id action times =>
    match s.actOn id action times with
    | (none, s) => (.nothing, s)
    | (some (.ok ()), s) => (.flag true, s)
    | (some (.error e), s) => (.panelError (.value e), s)

/-- Reads a pin through a view, with the values seen so far. -/
def viewRead (s : Stage) (seen : List (String × Value)) (pin : Handle) (answer : Value → Answer) :
    Answer × List (String × Value) :=
  match { store := s.store, seen : PinView }.read pin with
  | .ok (value, view) => (answer value, view.seen)
  | .error e => (.panelError (.pin e), seen)

mutual

/-- Carries out a command. -/
def perform (react : Reaction Listener Memory) : Command → Stage → Outcome × Stage
  | .store c, s => let (a, s) := c.perform s; (.answer a, s)
  | .pins c, s => let (a, s) := c.perform react s; (.answer a, s)
  | .cell c, s => let (a, s) := c.perform s; (.answer a, s)
  | .status c, s => let (a, s) := c.perform react s; (.answer a, s)
  | .bus channel c, s => let (a, s) := c.perform react channel s; (.answer a, s)
  | .driver c, s => let (a, s) := c.perform react s; (.answer a, s)
  | .binder c, s => let (a, s) := c.perform s; (.answer a, s)
  | .elements c, s => let (a, s) := c.perform s; (.answer a, s)
  | .view steps, s => performView react steps [] [] s
  | .subscribe channel label topic limit actions, s =>
    let (id, s) := Stage.subscribe s channel label topic limit actions
    (.answer (.subscription id), s)
  | .panic message, s => (.panic message, s)

/-- Carries out steps on a view, whose answers so far are given in reverse. A
panic in between is the outcome of all. -/
def performView (react : Reaction Listener Memory) :
    List (ViewStep Command) → List (String × Value) → List Answer → Stage → Outcome × Stage
  | [], _, answers, s => (.answer (.list answers.reverse), s)
  | step :: steps, seen, answers, s =>
    match performStep react step seen s with
    | ((.answer a, seen), s) => performView react steps seen (a :: answers) s
    | ((.panic message, _), s) => (.panic message, s)

/-- Carries out one step on a view. -/
def performStep (react : Reaction Listener Memory) :
    ViewStep Command → List (String × Value) → Stage →
      (Outcome × List (String × Value)) × Stage
  | .read pin, seen, s =>
    let (a, seen) := viewRead s seen pin .value
    ((.answer a, seen), s)
  | .readBool pin, seen, s =>
    let (a, seen) := viewRead s seen pin fun v => .flag v.asBool
    ((.answer a, seen), s)
  | .readFloat pin, seen, s =>
    let (a, seen) := viewRead s seen pin fun v => .number v.asFloat
    ((.answer a, seen), s)
  | .write pin value, seen, s =>
    match { store := s.store, seen : PinView }.write pin value with
    | .ok view => ((.answer .done, view.seen), { s with store := view.store })
    | .error e => ((.answer (.panelError (.pin e)), seen), s)
  | .command c, seen, s =>
    let (outcome, s) := perform react c s
    ((outcome, seen), s)

end

/-- How listeners react, with at most so many reactions one inside the other. -/
def reaction : Nat → Reaction Listener Memory
  | 0 => fun _ _ s => (.returned, s)
  | depth + 1 => fun listener notice s => respond (perform (reaction depth)) listener notice s

end MachinePanel.Scenario
