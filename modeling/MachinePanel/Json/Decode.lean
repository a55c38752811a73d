/-
Reading records off JSON values. A record is written as an object, whose
unknown members are ignored, or as an array of its fields in order. A member
of a known field may come only once, under whichever of its names. A name of a
finite set may also be written as an object whose only member has that name
and no value. A tagged value is such a name, its tag, beside its content.
-/
import MachinePanel.Bounds
import MachinePanel.Json.Value

namespace MachinePanel.Json

/-- A boolean. -/
def asBool : Json → Option Bool
  | .bool b => some b
  | _ => none

/-- A string whose characters are all there. -/
def asString : Json → Option String
  | .str s => s
  | _ => none

/-- An integer of a range. -/
def asInt (bounds : Bounds) : Json → Option Int
  | .num n => n.integer?.filter bounds.contains
  | _ => none

/-- A natural number of a range. -/
def asNat (bounds : Bounds) (v : Json) : Option Nat :=
  (asInt bounds v).map Int.toNat

/-- A 32-bit signed integer. -/
def asInt32 (v : Json) : Option Int32 :=
  (asInt .s32 v).map Int32.ofInt

/-- A 32-bit unsigned integer. -/
def asUInt32 (v : Json) : Option UInt32 :=
  (asNat .u32 v).map UInt32.ofNat

/-- A double: any number that is not too large. An integer is first taken
exactly, so that it becomes the nearest double. -/
def asFloat : Json → Option Float
  | .num n =>
    match n.integer? with
    | some i => some (Float.ofInt i)
    | none => n.float?
  | _ => none

/-- Something, or `null` for nothing. -/
def asOptional (read : Json → Option α) : Json → Option (Option α)
  | .null => some none
  | v => (read v).map some

/-- A list. -/
def asList (read : Json → Option α) : Json → Option (List α)
  | .arr xs => xs.mapM read
  | _ => none

/-- A name: a string, or an object with that name for its only member and `null` for its value. -/
def asName : Json → Option String
  | .str s => s
  | .obj [(some name, .null)] => some name
  | _ => none

/-- A value of a finite set, by its name. -/
def asNamed (ofName? : String → Option α) (v : Json) : Option α :=
  (asName v).bind ofName?

/-- A field of a record: its name, and other names for it. -/
structure Field where
  name : String
  aliases : List String := []

/-- The key names the field. -/
def Field.matches (f : Field) (key : String) : Bool :=
  f.name == key || f.aliases.contains key

/-- The values an object gives a field, in order. -/
def valuesOf (f : Field) (members : List (Option String × Json)) : List Json :=
  members.filterMap fun (key, v) => if key.any f.matches then some v else none

/-- What a member list says about a field: a field may be missing, but not come twice. -/
def member? (members : List (Option String × Json)) (f : Field) : Option (Option Json) :=
  match valuesOf f members with
  | [] => some none
  | [v] => some (some v)
  | _ => none

/-- How a record treats fields that are not there. -/
inductive Missing where
  /-- An array has all fields, and each field decides for itself when a member is missing. -/
  | strict
  /-- Any field may be missing, in an array those at the end. -/
  | defaulted
  deriving DecidableEq, Repr

/-- The values of a record's fields, in order. Keys have to be readable even
when nobody looks at their value. -/
def fields (missing : Missing) (names : List Field) : Json → Option (List (Option Json))
  | .obj members =>
    if members.all (·.1.isSome) then names.mapM (member? members) else none
  | .arr items =>
    if names.length < items.length then none
    else if items.length < names.length ∧ missing = .strict then none
    else some (items.map some ++ List.replicate (names.length - items.length) none)
  | _ => none

/-- A field that has to be there. -/
def required (read : Json → Option α) (v : Option Json) : Option α :=
  v.bind read

/-- A field that has a default. -/
def defaulting (default : α) (read : Json → Option α) : Option Json → Option α
  | none => some default
  | some v => read v

/-- A field that may be missing or `null`. -/
def optional (read : Json → Option α) : Option Json → Option (Option α) :=
  defaulting none (asOptional read)

/-- The tag and the content of a tagged value: two members in any order, of
which the content may be missing, or an array of the two. In an array the tag
is a plain string. -/
def tagged (tag content : String) : Json → Option (String × Option Json)
  | .obj members =>
    match fields .defaulted [⟨tag, []⟩, ⟨content, []⟩] (.obj members) with
    | some [some t, c] => (asName t).map (·, c)
    | _ => none
  | .arr [t, c] => (asString t).map (·, some c)
  | _ => none

end MachinePanel.Json
