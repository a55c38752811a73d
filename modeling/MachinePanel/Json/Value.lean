/-
JSON values as they are read. A number keeps its literal, because whether it
is an integer shows in how it is written, and because a number nobody looks at
need not have a value. For the same reason a string whose escapes name an
unpaired surrogate is a value of its own: it may stand where it is ignored.
-/
import MachinePanel.Binary64.Literal
import MachinePanel.Bounds

namespace MachinePanel

/-- A number as it is written. -/
structure Json.Number where
  negative : Bool := false
  whole : List Nat
  fraction : Option (List Nat) := none
  exponent : Option Int := none
  deriving DecidableEq, Repr

/-- A JSON value. A key or a string is `none` when it is no sequence of characters. -/
inductive Json where
  | null
  | bool (b : Bool)
  | num (n : Json.Number)
  | str (s : Option String)
  | arr (items : List Json)
  | obj (members : List (Option String × Json))
  deriving Inhabited, Repr

namespace Json

/-- The number a run of digits stands for. -/
def natOfDigits (ds : List Nat) : Nat :=
  ds.foldl (fun n d => 10 * n + d) 0

/-- The digits of a number, the highest first. -/
def digitsOfNat (n : Nat) : List Nat :=
  if n < 10 then [n] else digitsOfNat (n / 10) ++ [n % 10]

theorem natOfDigits_digitsOfNat (n : Nat) : natOfDigits (digitsOfNat n) = n := by
  induction n using digitsOfNat.induct with
  | case1 n h => rw [digitsOfNat, if_pos h]; simp [natOfDigits]
  | case2 n h ih =>
    rw [digitsOfNat, if_neg h, natOfDigits, List.foldl_append]
    unfold natOfDigits at ih
    rw [ih]
    exact Nat.div_add_mod n 10

namespace Number

/-- The integer a literal without fraction and exponent stands for, as long as
it fits into 64 bits, signed or unsigned. A negative zero is no integer. -/
def integer? (n : Number) : Option Int :=
  if n.fraction.isSome || n.exponent.isSome then none
  else
    let magnitude : Int := natOfDigits n.whole
    if n.negative then
      if magnitude = 0 ∨ -magnitude < Bounds.s64.low then none else some (-magnitude)
    else if magnitude ≤ Bounds.u64.high then some magnitude else none

/-- The double a literal stands for, if it is not too large. -/
def float? (n : Number) : Option Float :=
  let magnitude := Binary64.Literal.value? ⟨n.whole, n.fraction.getD [], n.exponent.getD 0⟩
  if n.negative then magnitude.map Float.neg else magnitude

/-- The literal of an integer. -/
def ofInt (n : Int) : Number where
  negative := decide (n < 0)
  whole := digitsOfNat n.natAbs

/-- An integer of 64 bits is read off its literal. -/
theorem integer?_ofInt {n : Int} (hl : Bounds.s64.low ≤ n) (hu : n ≤ Bounds.u64.high) :
    (ofInt n).integer? = some n := by
  simp only [integer?, ofInt, natOfDigits_digitsOfNat, Option.isSome_none, Bool.or_self,
    Bool.false_eq_true, ↓reduceIte, decide_eq_true_eq]
  split
  · rw [if_neg (by omega)]
    congr 1
    omega
  · rw [if_pos (by omega)]
    congr 1
    omega

end Number

/-- An integer. -/
def int (n : Int) : Json := .num (.ofInt n)

/-- A natural number. -/
def nat (n : Nat) : Json := int n

/-- A string. -/
def text (s : String) : Json := .str (some s)

/-- An object. -/
def record (members : List (String × Json)) : Json :=
  .obj (members.map fun m => (some m.1, m.2))

end Json

end MachinePanel
