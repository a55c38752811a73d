/-
What a pin holds. A pin has a direction, seen from the panel's components, and
one of four scalar types; its value is of that type. Values are compared as
their scalars are: a float that is no number differs from itself, and the two
zeros are equal.
-/
import MachinePanel.Binary64.Shortest

namespace MachinePanel

/-- Whether components read a pin or write it. -/
inductive Direction where
  | input
  | output
  deriving DecidableEq, Repr

namespace Direction

/-- The two directions. -/
def all : List Direction := [input, output]

/-- The name of a direction. -/
def name : Direction → String
  | input => "in"
  | output => "out"

/-- The direction of a name. -/
def ofName? (s : String) : Option Direction :=
  all.find? (·.name == s)

/-- Components may write the pin. -/
def isWritable : Direction → Bool
  | input => false
  | output => true

end Direction

/-- The type of a pin. -/
inductive ScalarType where
  | bit
  | s32
  | u32
  | float
  deriving DecidableEq, Repr

/-- The value of a pin. -/
inductive Value where
  | bit (b : Bool)
  | s32 (n : Int32)
  | u32 (n : UInt32)
  | float (x : Float)

namespace ScalarType

/-- The four types. -/
def all : List ScalarType := [bit, s32, u32, float]

/-- The name of a type. -/
def name : ScalarType → String
  | bit => "bit"
  | s32 => "s32"
  | u32 => "u32"
  | float => "float"

/-- The type of a name. -/
def ofName? (s : String) : Option ScalarType :=
  all.find? (·.name == s)

/-- The zero of a type, which a new pin holds. -/
def zero : ScalarType → Value
  | bit => .bit false
  | s32 => .s32 0
  | u32 => .u32 0
  | float => .float 0.0

end ScalarType

namespace Value

/-- The type of a value. -/
def type : Value → ScalarType
  | bit _ => .bit
  | s32 _ => .s32
  | u32 _ => .u32
  | float _ => .float

@[simp] theorem type_zero (t : ScalarType) : t.zero.type = t := by
  cases t <;> rfl

/-- Equality of scalars; values of different types differ. -/
def beq : Value → Value → Bool
  | bit a, bit b => a == b
  | s32 a, s32 b => a == b
  | u32 a, u32 b => a == b
  | float a, float b => a == b
  | _, _ => false

instance : BEq Value := ⟨beq⟩

/-- The value as a truth value: everything but zero is true. -/
def asBool : Value → Bool
  | bit b => b
  | s32 n => n != 0
  | u32 n => n != 0
  | float x => !(x == 0.0)

/-- The value as a double, which holds every value of the other types. -/
def asFloat : Value → Float
  | bit b => if b then 1.0 else 0.0
  | s32 n => Float.ofInt n.toInt
  | u32 n => Float.ofNat n.toNat
  | float x => x

/-- The value as a position in a list: a float and a negative number are none. -/
def asIndex : Value → Option Nat
  | bit b => some b.toNat
  | s32 n => if n.toInt < 0 then none else some n.toInt.toNat
  | u32 n => some n.toNat
  | float _ => none

/-- The text of a value; bits are written as digits. -/
def text : Value → String
  | bit b => if b then "1" else "0"
  | s32 n => toString n.toInt
  | u32 n => toString n.toNat
  | float x => Binary64.shortestText x

end Value

end MachinePanel
