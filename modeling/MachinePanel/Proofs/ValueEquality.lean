/-
Equality of values. It is symmetric and transitive, so that a value that is
equal to another can stand for it in every comparison (`beq_congr`). It is not
reflexive: a float that is no number equals nothing.
-/
import MachinePanel.Pin.Value

namespace MachinePanel

open Float.Model

namespace Binary64

/-- What equality of doubles goes by: the two zeros are one, and what is no number is nothing. -/
def scalar? : UnpackedFloat → Option UnpackedFloat
  | .notANumber => none
  | .zero _ => some (.zero .positive)
  | x => some x

/-- Two finite numbers compare as their exponents do, and then their mantissas. -/
theorem compare_finite_eq_iff (s s' : UnpackedFloat.Sign) {m m' : Nat} {e e' : Int} (hm : 0 < m)
    (hm' : 0 < m') : (UnpackedFloat.finite s m e hm).compare (.finite s' m' e' hm') = some .eq ↔
      s = s' ∧ m = m' ∧ e = e' := by
  have hall : (compare e e').then (compare m m') = .eq ↔ m = m' ∧ e = e' := by
    rw [Ordering.then_eq_eq, Std.compare_eq_iff_eq, Std.compare_eq_iff_eq, and_comm]
  cases s with
  | positive =>
    cases s' with
    | positive =>
      change some ((compare e e').then (compare m m')) = some .eq ↔ _
      simp [hall]
    | negative => exact iff_of_false (by rintro ⟨⟩) (by rintro ⟨⟨⟩, -⟩)
  | negative =>
    cases s' with
    | positive => exact iff_of_false (by rintro ⟨⟩) (by rintro ⟨⟨⟩, -⟩)
    | negative =>
      change some ((compare e e').then (compare m m')).swap = some .eq ↔ _
      simp [hall]

theorem compare_eq_iff (a b : UnpackedFloat) :
    a.compare b = some .eq ↔ ∃ x, scalar? a = some x ∧ scalar? b = some x := by
  cases a with
  | notANumber => exact iff_of_false (by rintro ⟨⟩) (by rintro ⟨_, ⟨⟩, -⟩)
  | zero s =>
    cases b with
    | zero s' => exact iff_of_true rfl ⟨_, rfl, rfl⟩
    | notANumber => exact iff_of_false (by rintro ⟨⟩) (by rintro ⟨_, -, ⟨⟩⟩)
    | _ s' => cases s' <;> exact iff_of_false (by rintro ⟨⟩) (by rintro ⟨_, ⟨⟩, ⟨⟩⟩)
  | infinity s =>
    cases b with
    | infinity s' =>
      cases s <;> cases s' <;>
        first
        | exact iff_of_true rfl ⟨_, rfl, rfl⟩
        | exact iff_of_false (by rintro ⟨⟩) (by rintro ⟨_, ⟨⟩, ⟨⟩⟩)
    | _ => cases s <;> exact iff_of_false (by rintro ⟨⟩) (by rintro ⟨_, ⟨⟩, ⟨⟩⟩)
  | finite s m e hm =>
    cases b with
    | finite s' m' e' hm' =>
      rw [compare_finite_eq_iff]
      constructor
      · rintro ⟨rfl, rfl, rfl⟩
        exact ⟨_, rfl, rfl⟩
      · rintro ⟨_, ⟨⟩, ⟨⟩⟩
        exact ⟨rfl, rfl, rfl⟩
    | infinity s' => cases s' <;> exact iff_of_false (by rintro ⟨⟩) (by rintro ⟨_, ⟨⟩, ⟨⟩⟩)
    | _ => cases s <;> exact iff_of_false (by rintro ⟨⟩) (by rintro ⟨_, ⟨⟩, ⟨⟩⟩)

theorem beq_iff (a b : Float) : (a == b) = true ↔
    ∃ x, scalar? a.toModel.unpack = some x ∧ scalar? b.toModel.unpack = some x := by
  rw [← compare_eq_iff]
  exact beq_iff_eq (α := Option Ordering)

theorem beq_self_of_isNaN {x : Float} (h : x.isNaN = true) : (x == x) = false := by
  have hx : x.toModel.unpack.isNaN = true := h
  have hnone : scalar? x.toModel.unpack = none := by
    cases hu : x.toModel.unpack with
    | notANumber => rfl
    | _ => rw [hu] at hx; cases hx
  rw [Bool.eq_false_iff]
  intro heq
  obtain ⟨y, hy, -⟩ := (beq_iff x x).1 heq
  rw [hnone] at hy
  cases hy

theorem beq_zeros : ((0.0 : Float) == -0.0) = true := by
  decide +kernel

end Binary64

namespace Value

/-- What equality of values goes by. -/
inductive Scalar where
  | bit (b : Bool)
  | s32 (n : Int32)
  | u32 (n : UInt32)
  | float (x : UnpackedFloat)

/-- The scalar of a value, if it is equal to anything. -/
def scalar? : Value → Option Scalar
  | bit b => some (.bit b)
  | s32 n => some (.s32 n)
  | u32 n => some (.u32 n)
  | float x => (Binary64.scalar? x.toModel.unpack).map .float

theorem beq_iff (a b : Value) :
    (a == b) = true ↔ ∃ x, a.scalar? = some x ∧ b.scalar? = some x := by
  change a.beq b = true ↔ _
  cases a with
  | bit x => cases b <;> simp [beq, scalar?, eq_comm (a := x)]
  | s32 x => cases b <;> simp [beq, scalar?, eq_comm (a := x)]
  | u32 x => cases b <;> simp [beq, scalar?, eq_comm (a := x)]
  | float x =>
    cases b with
    | float y =>
      simp only [beq, scalar?, Binary64.beq_iff, Option.map_eq_some_iff]
      constructor
      · rintro ⟨z, hx, hy⟩
        exact ⟨.float z, ⟨z, hx, rfl⟩, ⟨z, hy, rfl⟩⟩
      · rintro ⟨_, ⟨z, hx, rfl⟩, ⟨_, hy, ⟨⟩⟩⟩
        exact ⟨z, hx, hy⟩
    | _ => simp [beq, scalar?]

theorem beq_symm {a b : Value} (h : (a == b) = true) : (b == a) = true := by
  obtain ⟨x, ha, hb⟩ := (beq_iff a b).1 h
  exact (beq_iff b a).2 ⟨x, hb, ha⟩

theorem beq_trans {a b c : Value} (h : (a == b) = true) (h' : (b == c) = true) :
    (a == c) = true := by
  obtain ⟨x, ha, hb⟩ := (beq_iff a b).1 h
  obtain ⟨y, hb', hc⟩ := (beq_iff b c).1 h'
  obtain rfl : x = y := Option.some.inj (hb.symm.trans hb')
  exact (beq_iff a c).2 ⟨x, ha, hc⟩

/-- Equal values compare alike. -/
theorem beq_congr {a b : Value} (h : (a == b) = true) (c : Value) : (a == c) = (b == c) := by
  rw [Bool.eq_iff_iff]
  exact ⟨beq_trans (beq_symm h), beq_trans h⟩

end Value

end MachinePanel
