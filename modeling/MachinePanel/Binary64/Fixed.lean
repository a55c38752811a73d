/-
Fixed-point text of a double: its exact binary value rounded to a number of
decimal places, a half going to the even neighbour. The sign stays on values
that round to zero. What is not finite is written as a word.
-/
import MachinePanel.Binary64.Basic
import MachinePanel.Text.Numeral
import MachinePanel.Text.Padded

namespace MachinePanel.Binary64

/-- The nearest integer to a fraction; of two equally near, the even one. -/
def roundHalfEven (num den : Nat) : Nat :=
  let q := num / den
  let r := num % den
  if 2 * r < den then q
  else if den < 2 * r then q + 1
  else if q % 2 = 0 then q else q + 1

/-- The rounding is within half a unit. -/
theorem roundHalfEven_near {num den : Nat} (h : 0 < den) :
    2 * (roundHalfEven num den * den) ≤ 2 * num + den ∧
      2 * num ≤ 2 * (roundHalfEven num den * den) + den := by
  have hd := Nat.div_add_mod num den
  have hr := Nat.mod_lt num h
  rw [Nat.mul_comm] at hd
  have succ : (num / den + 1) * den = num / den * den + den := Nat.succ_mul _ _
  unfold roundHalfEven
  dsimp only
  split
  · omega
  · split
    · rw [succ]; omega
    · split
      · omega
      · rw [succ]; omega

/-- Writes `units * 10 ^ (-places)`. -/
def placeText (places units : Nat) : List Char :=
  let digits := Text.padLeft '0' (places + 1) (Numeral.digits units)
  let cut := digits.length - places
  if places = 0 then digits else digits.take cut ++ '.' :: digits.drop cut

/-- The sign and the words shared by all decimal texts of doubles. -/
def signedText (x : Float) (magnitude : Parts → List Char) : List Char :=
  match read x with
  | .nan => ['N', 'a', 'N']
  | .infinite negative => (if negative then ['-'] else []) ++ ['i', 'n', 'f']
  | .finite p => (if p.negative then ['-'] else []) ++ magnitude p

/-- The text with a fixed number of decimal places. -/
def fixedText (places : Nat) (x : Float) : List Char :=
  signedText x fun p =>
    placeText places (roundHalfEven (p.ratio.1 * Nat.pow 10 places) p.ratio.2)

end MachinePanel.Binary64
