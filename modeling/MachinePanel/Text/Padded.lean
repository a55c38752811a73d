/-
Fixed-width fields: a text is moved to the right end of its field, and a number
may be filled up with zeros. A text wider than its field is left as it is.
-/

namespace MachinePanel.Text

/-- Fills up with `fill` on the left to at least `width` characters. -/
def padLeft (fill : Char) (width : Nat) (cs : List Char) : List Char :=
  List.replicate (width - cs.length) fill ++ cs

theorem length_padLeft (fill : Char) (width : Nat) (cs : List Char) :
    (padLeft fill width cs).length = max width cs.length := by
  simp only [padLeft, List.length_append, List.length_replicate]
  omega

/-- A text at the right end of a field of blanks. -/
def alignRight (width : Nat) (cs : List Char) : String :=
  String.ofList (padLeft ' ' width cs)

end MachinePanel.Text
