/-
Names of pins: components joined by dots, each a non-empty run of ASCII
letters, digits, underscores and hyphens.
-/

namespace MachinePanel.PinName

/-- Characters of a component. -/
def isComponentChar (c : Char) : Bool :=
  c.isAlphanum || c == '_' || c == '-'

/-- The components of a text: what stands between its dots. -/
def components : List Char → List (List Char)
  | [] => [[]]
  | c :: cs =>
    if c = '.' then [] :: components cs
    else
      match components cs with
      | [] => [[c]]
      | first :: rest => (c :: first) :: rest

theorem components_ne_nil (cs : List Char) : components cs ≠ [] := by
  cases cs with
  | nil => simp [components]
  | cons c cs =>
    unfold components
    split
    · simp
    · split <;> simp

/-- A component is not empty and has only characters of a component. -/
def isComponent (cs : List Char) : Bool :=
  !cs.isEmpty && cs.all isComponentChar

/-- The text is a pin name. -/
def isValid (name : String) : Bool :=
  (components name.toList).all isComponent

end MachinePanel.PinName
