/-
Names in kebab case: where a name in one piece starts each word with a capital,
its kebab case has the words in lower case with dashes between them.
-/

namespace MachinePanel.Text

/-- A letter after the first: a capital starts a word. -/
def kebabChar (c : Char) : List Char :=
  if c.isUpper then ['-', c.toLower] else [c.toLower]

/-- The kebab case of a name. -/
def kebab (name : String) : String :=
  String.ofList (match name.toList with
    | [] => []
    | c :: cs => c.toLower :: cs.flatMap kebabChar)

end MachinePanel.Text
