/-
A double taken apart. A finite double is an integer significand times a power
of two, with a sign that also marks the negative zero; `Reading` is that, or
infinity, or no number. Everything exact about doubles (their decimal texts,
their integral parts) is computed from this reading in whole numbers.
-/

namespace MachinePanel.Binary64

/-- The finite double `± significand * 2 ^ exponent`. -/
structure Parts where
  negative : Bool
  significand : Nat
  exponent : Int
  deriving DecidableEq, Repr

/-- What the bits of a double say. -/
inductive Reading where
  | nan
  | infinite (negative : Bool)
  | finite (parts : Parts)
  deriving DecidableEq, Repr

/-- The leading one of a significand that is not written in the fraction. -/
def leadingOne : Nat := 0x10000000000000

/-- The sign bit. -/
def signBit : Nat := 0x8000000000000000

/-- The lowest exponent. -/
def lowestExponent : Int := -1074

/-- Reads a bit pattern: a sign bit, eleven bits of biased exponent, and
fifty-two bits of fraction under a leading one that is there unless the
exponent is the lowest. -/
def Reading.ofBits (bits : Nat) : Reading :=
  let negative := decide (signBit ≤ bits)
  let biased : Nat := bits / leadingOne % 2048
  let fraction : Nat := bits % leadingOne
  if biased = 2047 then
    if fraction = 0 then .infinite negative else .nan
  else if biased = 0 then
    .finite ⟨negative, fraction, lowestExponent⟩
  else
    .finite ⟨negative, leadingOne + fraction, lowestExponent + (Int.ofNat biased - 1)⟩

/-- The reading of a double. -/
def read (x : Float) : Reading :=
  .ofBits x.toBits.toNat

namespace Parts

/-- The magnitude as a fraction of whole numbers; the denominator is a power of two. -/
def ratio (p : Parts) : Nat × Nat :=
  (p.significand * Nat.pow 2 p.exponent.toNat, Nat.pow 2 (-p.exponent).toNat)

theorem ratio_den_pos (p : Parts) : 0 < p.ratio.2 :=
  Nat.two_pow_pos _

/-- The integer below the magnitude. -/
def whole (p : Parts) : Nat :=
  p.ratio.1 / p.ratio.2

/-- The magnitude is an integer. -/
def isWhole (p : Parts) : Bool :=
  p.ratio.1 % p.ratio.2 == 0

end Parts

end MachinePanel.Binary64
