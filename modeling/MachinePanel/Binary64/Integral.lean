/-
Integers near a double: rounding to an integral double down, up, toward zero
and to the nearest, and the integer a double is cut down to within bounds. The
sign survives, so that what lies between minus one and zero rounds up to the
negative zero. Infinities and NaN are their own integral values.
-/
import MachinePanel.Binary64.Basic
import MachinePanel.Bounds

namespace MachinePanel.Binary64

/-- The double of a magnitude up to `2 ^ 53` under a sign. -/
def signed (negative : Bool) (magnitude : Nat) : Float :=
  if negative then -Float.ofNat magnitude else Float.ofNat magnitude

/-- Replaces a finite double by an integer of the same sign; `magnitude` gives
that integer from the parts. A double of large exponent is integral already. -/
def toIntegral (magnitude : Parts → Nat) (x : Float) : Float :=
  match read x with
  | .finite p => if 0 ≤ p.exponent then x else signed p.negative (magnitude p)
  | _ => x

/-- The greatest integer that is not above. -/
def floor : Float → Float :=
  toIntegral fun p => if p.negative && !p.isWhole then p.whole + 1 else p.whole

/-- The least integer that is not below. -/
def ceil : Float → Float :=
  toIntegral fun p => if !p.negative && !p.isWhole then p.whole + 1 else p.whole

/-- The nearest integer; a half goes away from zero. -/
def round : Float → Float :=
  toIntegral fun p => (2 * p.ratio.1 + p.ratio.2) / (2 * p.ratio.2)

/-- The integer toward zero. -/
def trunc (x : Float) : Int :=
  match read x with
  | .finite p => if p.negative then -(p.whole : Int) else p.whole
  | _ => 0

/-- The integer toward zero, or the nearest of a range. An infinity goes to its
end of the range, and NaN counts as zero. -/
def toIntWithin (bounds : Bounds) (x : Float) : Int :=
  match read x with
  | .nan => 0
  | .infinite negative => if negative then bounds.low else bounds.high
  | .finite _ => bounds.nearest (trunc x)

/-- The result lies in the range, if zero does. -/
theorem contains_toIntWithin {bounds : Bounds} (h : bounds.contains 0 = true) (x : Float) :
    bounds.contains (toIntWithin bounds x) = true := by
  have hb : bounds.low ≤ 0 ∧ 0 ≤ bounds.high := by
    simpa only [Bounds.contains, Bool.and_eq_true, decide_eq_true_eq] using h
  unfold toIntWithin
  split
  · exact h
  · simp only [Bounds.contains, Bool.and_eq_true, decide_eq_true_eq]
    split <;> omega
  · exact Bounds.contains_nearest (by omega) _

end MachinePanel.Binary64
