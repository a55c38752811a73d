/-
Binding elements to pins. A binder numbers the names it generates within
families, and keeps the list of the pins it has bound. Pins are made one after
the other; when one cannot be made, the earlier ones stay.
-/
import MachinePanel.Element.Design
import MachinePanel.Journal

namespace MachinePanel

/-- The next number of each family, and the pins bound so far. -/
structure Binder where
  counters : List (String × Nat) := []
  created : List Handle := []

namespace Binder

/-- The next number of a family. -/
def counter (b : Binder) (family : String) : Nat :=
  (b.counters.lookup family).getD 0

/-- Sets the next number of a family. -/
def setCounter (family : String) (n : Nat) : List (String × Nat) → List (String × Nat)
  | [] => [(family, n)]
  | (f, k) :: rest => if f = family then (f, n) :: rest else (f, k) :: setCounter family n rest

/-- Takes the next name of a family. -/
def nextName (b : Binder) (family : String) : String × Binder :=
  let n := b.counter family
  (family ++ "." ++ toString n, { b with counters := setCounter family (n + 1) b.counters })

/-- The name that is given, or else the next one of the family with its ending. -/
def baseName (b : Binder) (given : Option String) (naming : Naming) : String × Binder :=
  match given with
  | some name => (name, b)
  | none =>
    let (name, b) := b.nextName naming.family
    (name ++ naming.ending, b)

/-- Takes the list of bound pins away. -/
def takeCreated (b : Binder) : List Handle × Binder :=
  (b.created, { b with created := [] })

/-- The description of a binder. -/
def text (b : Binder) : String :=
  let counters := b.counters.map fun (f, n) => Text.quote f ++ ": " ++ toString n
  "PinBinder \x7b counters: \x7b" ++ String.intercalate ", " counters ++ "\x7d, created: " ++
    toString b.created.length ++ ", .. \x7d"

end Binder

/-- The store, the binder and the journal while pins are bound. -/
structure Binding where
  store : PinStore
  binder : Binder
  notes : List Note := []

namespace Binding

/-- Makes one pin and adds it to the binder's list. -/
def bindPin (b : Binding) (pin : Handle) : Except PinError Binding :=
  match b.store.create pin with
  | .error e => .error e
  | .ok store =>
    .ok
      { store
        binder := { b.binder with created := b.binder.created ++ [pin] }
        notes := if b.store.contains pin.name then b.notes else b.notes ++ [.pinCreated pin] }

/-- Makes pins in order, up to the first that cannot be made. -/
def bindPins (b : Binding) : List Handle → Option PinError × Binding
  | [] => (none, b)
  | pin :: rest =>
    match b.bindPin pin with
    | .error e => (some e, b)
    | .ok b => b.bindPins rest

/-- The base name of a design, taken from the binder if it needs one. -/
def takeName (b : Binding) (props : Props) : Option Naming → String × Binding
  | none => ("", b)
  | some naming =>
    let (base, binder) := b.binder.baseName props.pinName naming
    (base, { b with binder })

/-- Makes the pins of a tag's blueprint, and then the element of the tag's design. -/
def realize (b : Binding) (tag : Tag) (design : Design) (props : Props) (now : Nanos) :
    Except PanelError Element × Binding :=
  let (base, b) := b.takeName props design.naming
  match b.bindPins (tag.blueprint props base) with
  | (none, b) => (.ok (design.element base now), b)
  | (some e, b) => (.error (.pin e), b)

/-- Makes the element of a tag. -/
def build (b : Binding) (tag : String) (props : Props) (now : Nanos) :
    Except PanelError Element × Binding :=
  match Tag.ofName? tag with
  | none => (.error (.unknownElement tag), b)
  | some tag =>
    match Design.of props tag with
    | .error e => (.error (.value e), b)
    | .ok design => b.realize tag design props now

/-- An element that has been made for a tag is that of the tag's design, on the base name that
was taken for it. -/
theorem exists_design_of_build {b : Binding} {tag : Tag} {props : Props} {now : Nanos} {e : Element}
    (h : (b.build tag.name props now).1 = .ok e) :
    ∃ design, Design.of props tag = .ok design ∧
      e = design.element (b.takeName props design.naming).1 now := by
  unfold build at h
  rw [Tag.ofName?_name] at h
  simp only at h
  split at h
  · cases h
  · next design hdesign =>
    refine ⟨design, hdesign, ?_⟩
    simp only [realize] at h
    split at h
    · cases h
      rfl
    · cases h

end Binding

end MachinePanel
