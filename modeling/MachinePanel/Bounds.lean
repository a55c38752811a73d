/-
The ranges of whole numbers of 32 and 64 bits, signed and unsigned.
-/

namespace MachinePanel

/-- A range of integers, both ends included. -/
structure Bounds where
  low : Int
  high : Int
  deriving DecidableEq, Repr

namespace Bounds

/-- Signed numbers of 32 bits. -/
def s32 : Bounds := ⟨-2147483648, 2147483647⟩

/-- Unsigned numbers of 32 bits. -/
def u32 : Bounds := ⟨0, 4294967295⟩

/-- Signed numbers of 64 bits. -/
def s64 : Bounds := ⟨-9223372036854775808, 9223372036854775807⟩

/-- Unsigned numbers of 64 bits. -/
def u64 : Bounds := ⟨0, 18446744073709551615⟩

/-- The integer lies in the range. -/
def contains (b : Bounds) (n : Int) : Bool :=
  b.low ≤ n && n ≤ b.high

/-- The integer of the range that is nearest. -/
def nearest (b : Bounds) (n : Int) : Int :=
  max b.low (min b.high n)

theorem nearest_of_contains {b : Bounds} {n : Int} (h : b.contains n = true) : b.nearest n = n := by
  simp only [contains, Bool.and_eq_true, decide_eq_true_eq] at h
  simp only [nearest]
  omega

theorem contains_nearest {b : Bounds} (hb : b.low ≤ b.high) (n : Int) :
    b.contains (b.nearest n) = true := by
  simp only [contains, Bool.and_eq_true, decide_eq_true_eq]
  unfold nearest
  omega

end Bounds

end MachinePanel
