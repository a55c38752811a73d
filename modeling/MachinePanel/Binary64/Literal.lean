/-
The double a decimal literal stands for. The digits are gathered into a
64-bit significand, from the first digit that no longer fits on only their
number counts, and the significand is then scaled by a power of ten in double
arithmetic. Up to fifteen digits and exponents up to twenty-two this is the
nearest double. A literal beyond the largest double has no value, one below
the smallest is zero.
-/
import MachinePanel.Binary64.Order

namespace MachinePanel.Binary64

/-- An unsigned decimal literal: whole digits, fraction digits, and an exponent. -/
structure Literal where
  whole : List Nat
  fraction : List Nat := []
  exponent : Int := 0
  deriving DecidableEq, Repr

/-- The greatest significand. -/
def significandLimit : Nat := 0xFFFFFFFFFFFFFFFF

/-- The greatest exponent a literal may write out. -/
def exponentLimit : Nat := 0x7FFFFFFF

/-- Takes digits into the significand as long as they fit, and gives back the rest. -/
def absorb : Nat → List Nat → Nat × List Nat
  | n, [] => (n, [])
  | n, d :: ds => if 10 * n + d ≤ significandLimit then absorb (10 * n + d) ds else (n, d :: ds)

/-- The nearest double to a power of ten. -/
def powerOfTen (n : Nat) : Float :=
  Float.ofScientific 1 false n

/-- Scales down in steps of at most `10 ^ 308`. -/
def scaleDown (x : Float) (n : Nat) : Float :=
  if n ≤ 308 then x / powerOfTen n
  else if x == 0 then x
  else scaleDown (x / powerOfTen 308) (n - 308)
termination_by n

/-- Scales up; beyond the largest double there is no value. -/
def scaleUp (x : Float) (n : Nat) : Option Float :=
  if n ≤ 308 then
    let y := x * powerOfTen n
    if y.isInf then none else some y
  else if x == 0 then some x
  else none

/-- The significand and the power of ten of a literal. -/
def Literal.scaled (l : Literal) : Nat × Int :=
  let (whole, dropped) := absorb 0 l.whole
  let (significand, ignored) := absorb whole l.fraction
  let taken : Nat := l.fraction.length - ignored.length
  (significand, l.exponent + dropped.length - taken)

/-- The double a literal stands for. -/
def Literal.value? (l : Literal) : Option Float :=
  let (significand, scale) := l.scaled
  if (exponentLimit : Int) < l.exponent.natAbs then
    if significand ≠ 0 ∧ 0 < l.exponent then none else some 0
  else if 0 ≤ scale then
    scaleUp (Float.ofNat significand) scale.toNat
  else
    some (scaleDown (Float.ofNat significand) (-scale).toNat)

end MachinePanel.Binary64
