/-
The shortest decimal text of a double: the fewest digits that read back to the
same double, and of those the nearest to it. It is always positional, without
an exponent, and a whole number has no point.

A decimal reads back to a double when it lies in the interval of reals that
round to it: half the gap to either neighbour, ends included when the
significand is even. On the grid of decimals with `n` digits it is enough to
try the two points next to the double, so the first `n` with a hit gives the
shortest text.
-/
import MachinePanel.Binary64.Fixed

namespace MachinePanel.Binary64

/-- The decimal `coefficient * 10 ^ scale`. -/
structure Decimal where
  coefficient : Nat
  scale : Int
  deriving DecidableEq, Repr

namespace Decimal

/-- Drops the trailing zeros of a coefficient that is a power of ten. -/
def normalize (d : Decimal) (digits : Nat) : Decimal :=
  if d.coefficient = Nat.pow 10 digits then ⟨1, d.scale + digits⟩ else d

/-- The positional text. -/
def text (d : Decimal) : List Char :=
  let digits := Numeral.digits d.coefficient
  if 0 ≤ d.scale then
    digits ++ List.replicate d.scale.toNat '0'
  else
    placeText (-d.scale).toNat d.coefficient

end Decimal

/-- The whole part of `log₁₀ (num / den)`, both positive. -/
def decimalExponent (num den : Nat) : Int :=
  let guess : Int := (Numeral.digits num).length - (Numeral.digits den).length
  if den * Nat.pow 10 guess.toNat ≤ num * Nat.pow 10 (-guess).toNat then guess else guess - 1

/-- The real numbers that round to a positive finite double, in quarters of its
unit: from `low` to `high` around `mid`. -/
structure Interval where
  low : Nat
  mid : Nat
  high : Nat
  closed : Bool

/-- Below a power of two the neighbours lie half as far apart. -/
def Parts.interval (p : Parts) : Interval where
  low :=
    4 * p.significand - if p.significand = leadingOne ∧ p.exponent ≠ lowestExponent then 1 else 2
  mid := 4 * p.significand
  high := 4 * p.significand + 2
  closed := p.significand % 2 == 0

/-- The better point of the grid `10 ^ scale` that reads back, if there is one;
of two equally near points, the larger. -/
def Parts.onGrid (p : Parts) (scale : Int) : Option Nat :=
  let quarter := p.exponent - 2
  let num := Nat.pow 2 quarter.toNat * Nat.pow 10 (-scale).toNat
  let den := Nat.pow 2 (-quarter).toNat * Nat.pow 10 scale.toNat
  let interval := p.interval
  let below := interval.mid * num / den
  let rest := interval.mid * num % den
  let reaches := fun (a b : Nat) => if interval.closed then decide (a ≤ b) else decide (a < b)
  let down := reaches (interval.low * num) (below * den)
  let up := reaches ((below + 1) * den) (interval.high * num)
  if down && (!up || decide (2 * rest < den)) then some below
  else if up then some (below + 1)
  else none

/-- Tries grids of ever more digits. Seventeen always suffice. -/
def Parts.search (p : Parts) (exponent : Int) : Nat → Nat → Decimal
  | 0, digits => ⟨p.significand, exponent - digits⟩
  | fuel + 1, digits =>
    let scale := exponent - (digits - 1 : Nat)
    match p.onGrid scale with
    | some c => (Decimal.mk c scale).normalize digits
    | none => p.search exponent fuel (digits + 1)

/-- The shortest decimal that reads back to a finite double. -/
def Parts.shortest (p : Parts) : Decimal :=
  if p.significand = 0 then ⟨0, 0⟩
  else p.search (decimalExponent p.ratio.1 p.ratio.2) 17 1

/-- The shortest text of a double. -/
def shortestText (x : Float) : String :=
  String.ofList (signedText x fun p => p.shortest.text)

end MachinePanel.Binary64
