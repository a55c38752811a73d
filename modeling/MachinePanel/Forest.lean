/-
The elements of a panel as a forest. Elements are numbered in the order they
are added, and every element but the roots has a parent among the earlier
ones. A traversal visits parents before their children, and children in the
order they were added; an update visits all elements in that order through one
view of the pins, whatever elements fail.
-/
import MachinePanel.Element.Binder

namespace MachinePanel

/-- An element with the numbers of its children. -/
structure Node where
  element : Element
  children : List Nat := []

/-- The nodes by number, and the roots. -/
structure Forest where
  nodes : List Node := []
  roots : List Nat := []

/-- How many elements an update brought up to date, and how many failed. -/
structure UpdateCount where
  updated : Nat := 0
  failed : Nat := 0
  deriving DecidableEq, Repr

namespace Forest

/-- The number of elements. -/
def size (f : Forest) : Nat :=
  f.nodes.length

/-- The children of an element; a number without element has none. -/
def children (f : Forest) (id : Nat) : List Nat :=
  match f.nodes[id]? with
  | some node => node.children
  | none => []

/-- The element of a number. -/
def element? (f : Forest) (id : Nat) : Option Element :=
  f.nodes[id]?.map (·.element)

/-- Puts another element into a node. -/
def setElement (f : Forest) (id : Nat) (element : Element) : Forest :=
  { f with nodes := f.nodes.modify id fun node => { node with element } }

/-- Adds an element that has no parent. -/
def addRoot (f : Forest) (element : Element) : Nat × Forest :=
  (f.size, { nodes := f.nodes ++ [⟨element, []⟩], roots := f.roots ++ [f.size] })

/-- Adds an element as the last child of a parent. -/
def addChild (f : Forest) (parent : Nat) (element : Element) : Except PanelError (Nat × Forest) :=
  if parent < f.size then
    .ok (f.size,
      { f with
        nodes := (f.nodes.modify parent fun node =>
          { node with children := node.children ++ [f.size] }) ++ [⟨element, []⟩] })
  else .error (.noSuchElement parent)

/-- Adds an element below a parent, or else as a root. -/
def attach (f : Forest) (parent : Option Nat) (element : Element) :
    Except PanelError (Nat × Forest) :=
  match parent with
  | none => .ok (f.addRoot element)
  | some parent => f.addChild parent element

/-- The parent, if one is given, exists. -/
def hasParent (f : Forest) : Option Nat → Bool
  | none => true
  | some parent => parent < f.size

/-- Walks from a stack of numbers, at most so many steps. -/
def walk (f : Forest) : Nat → List Nat → List Nat
  | 0, _ => []
  | _, [] => []
  | fuel + 1, id :: stack => id :: f.walk fuel (f.children id ++ stack)

/-- All numbers, parents before their children. Every element is visited once,
so that there are as many steps as elements. -/
def traversal (f : Forest) : List Nat :=
  f.walk f.size f.roots

/-- A round of updates under way. -/
structure Round where
  forest : Forest
  view : PinView
  count : UpdateCount := {}
  notes : List Note := []

namespace Round

/-- The notes on one element's update. -/
def notesOn (id : Nat) (r : Refresh Element) : List Note :=
  (match r.unknownImage, r.element.pins.head? with
    | some value, some pin => [.unknownImage pin.name value]
    | _, _ => []) ++
  (match r.error with
    | some e => [.updateFailed r.element.tag id (.pin e)]
    | none => [])

/-- Updates one element. -/
def visit (now : Nanos) (round : Round) (id : Nat) : Round :=
  match round.forest.element? id with
  | none => round
  | some element =>
    let r := element.update now round.view
    { forest := round.forest.setElement id r.element
      view := r.view
      count :=
        if r.error.isNone then { round.count with updated := round.count.updated + 1 }
        else { round.count with failed := round.count.failed + 1 }
      notes := round.notes ++ notesOn id r }

end Round

/-- Updates all elements in the order of the traversal. -/
def update (f : Forest) (store : PinStore) (now : Nanos) : Round :=
  f.traversal.foldl (Round.visit now) { forest := f, view := PinView.mk store [] }

/-- The description of a forest. -/
def text (f : Forest) : String :=
  let roots := f.roots.map fun id => "WidgetId(" ++ toString id ++ ")"
  "WidgetTree \x7b widgets: " ++ Text.quoteAll (f.nodes.map (·.element.tag.name)) ++
    ", roots: [" ++ String.intercalate ", " roots ++ "] \x7d"

end Forest

end MachinePanel
