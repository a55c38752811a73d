/-
The set of axes a machine has, as a mask of 32 bits. An index of 32 or more is
never in a mask.
-/

namespace MachinePanel

/-- A set of axis indices below 32. -/
structure AxisMask where
  bits : UInt32
  deriving DecidableEq, Repr

namespace AxisMask

/-- No axes. -/
def none : AxisMask := ⟨0⟩

/-- Adds an axis; an index that is too large is left out. -/
def insert (mask : AxisMask) (index : Nat) : AxisMask :=
  if index < 32 then ⟨mask.bits ||| (1 <<< UInt32.ofNat index)⟩ else mask

/-- The mask of a list of indices. -/
def ofAxes (axes : List Nat) : AxisMask :=
  axes.foldl insert none

/-- The axis is in the mask. -/
def contains (mask : AxisMask) (index : Nat) : Bool :=
  decide (index < 32) && mask.bits.toNat.testBit index

/-- The number of one bits of a number. -/
def onesCount (n : Nat) : Nat :=
  if n = 0 then 0 else n % 2 + onesCount (n / 2)

/-- The number of axes. -/
def count (mask : AxisMask) : Nat :=
  onesCount mask.bits.toNat

/-- The number of axes among the first joints. -/
def countWithin (mask : AxisMask) (joints : Nat) : Nat :=
  (List.range joints).countP mask.contains

/-- The mask in binary. -/
def text (mask : AxisMask) : String :=
  "0b" ++ String.ofList (Nat.toDigits 2 mask.bits.toNat)

end AxisMask

end MachinePanel
