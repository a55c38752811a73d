/-
Decimal numerals of natural numbers. `digits` writes one without leading
zeros, `value?` reads any run of digits, leading zeros included, and
`value?_digits` says that what is written reads back.
-/

namespace MachinePanel.Numeral

/-- The character of a digit below ten. -/
def digit (d : Nat) : Char :=
  Char.ofNat (48 + d)

/-- The value of an ASCII digit. -/
def digitValue? (c : Char) : Option Nat :=
  if 48 ≤ c.toNat ∧ c.toNat ≤ 57 then some (c.toNat - 48) else none

theorem digitValue?_digit {d : Nat} (h : d < 10) : digitValue? (digit d) = some d := by
  have : ∀ d : Fin 10, digitValue? (digit d) = some d.val := by decide
  exact this ⟨d, h⟩

/-- The decimal digits of a number, the highest first. -/
def digits (n : Nat) : List Char :=
  if n < 10 then [digit n] else digits (n / 10) ++ [digit (n % 10)]

/-- Appends the digits of `cs` to the number read so far. -/
def extend (n : Nat) (cs : List Char) : Option Nat :=
  cs.foldlM (fun n c => (digitValue? c).map (10 * n + ·)) n

/-- The number a non-empty run of digits stands for. -/
def value? (cs : List Char) : Option Nat :=
  if cs.isEmpty then none else extend 0 cs

theorem digits_ne_nil (n : Nat) : digits n ≠ [] := by
  unfold digits
  split <;> simp

theorem extend_append (n : Nat) (xs ys : List Char) :
    extend n (xs ++ ys) = (extend n xs).bind (extend · ys) := by
  simp only [extend, List.foldlM_append]
  rfl

theorem extend_digits (n : Nat) : extend 0 (digits n) = some n := by
  induction n using digits.induct with
  | case1 n h =>
    rw [digits, if_pos h]
    simp [extend, digitValue?_digit h]
  | case2 n h ih =>
    rw [digits, if_neg h, extend_append, ih]
    simp only [Option.bind_some, extend, List.foldlM_cons, List.foldlM_nil,
      digitValue?_digit (Nat.mod_lt n (by decide)), Option.map_some]
    have : 10 * (n / 10) + n % 10 = n := Nat.div_add_mod n 10
    simp [this]

/-- What is written reads back. -/
theorem value?_digits (n : Nat) : value? (digits n) = some n := by
  simp [value?, digits_ne_nil, extend_digits]

end MachinePanel.Numeral
