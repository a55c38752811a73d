/-
Bounds on doubles. The smaller and the larger of two doubles pass over a NaN,
while `clamp` lets it through, as it does a negative zero at a bound of zero.
-/

namespace MachinePanel.Binary64

/-- The smaller of two doubles; if one is NaN, the other. -/
def least (x y : Float) : Float :=
  if x.isNaN then y else if y < x then y else x

/-- The larger of two doubles; if one is NaN, the other. -/
def greatest (x y : Float) : Float :=
  if x.isNaN then y else if x < y then y else x

/-- Moves a double to the bound it lies beyond. -/
def clamp (low high x : Float) : Float :=
  let raised := if x < low then low else x
  if high < raised then high else raised

/-- The same double, bit for bit; all NaNs are the same. -/
def same (x y : Float) : Bool :=
  x.toBits == y.toBits

end MachinePanel.Binary64
