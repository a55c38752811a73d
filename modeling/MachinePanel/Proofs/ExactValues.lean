/-
Doubles as numbers. What arithmetic takes a double apart into is what it is read as (`read_eq`), and
each number has one such form (`Canonical`). So doubles are in the order of the numbers they stand
for (`lt_iff`, `le_iff`), and what is cut off at a bound can be compared with the other bound
(`within_clamp`, `within_least_iff`).
-/
import Mathlib
import MachinePanel.Binary64.Order
import MachinePanel.Binary64.Basic

namespace MachinePanel.Binary64

open Float.Model Float.Model.UnpackedFloat

/-! ## Reading a double -/

/-- The reading of a double that arithmetic has taken apart. -/
def Reading.ofUnpacked : UnpackedFloat → Reading
  | .notANumber => .nan
  | .infinity s => .infinite (s == .negative)
  | .zero s => .finite ⟨s == .negative, 0, lowestExponent⟩
  | .finite s m e _ => .finite ⟨s == .negative, m, e⟩

section Bits

variable (b : BitVec Format.binary64.numBits)

theorem toNat_unpackMantissa : (unpackMantissa b).toNat = b.toNat % leadingOne := by
  simp [unpackMantissa, leadingOne, BitVec.extractLsb]

theorem toNat_unpackExponent : (unpackExponent b).toNat = b.toNat / leadingOne % 2048 := by
  simp [unpackExponent, leadingOne, BitVec.extractLsb, Nat.shiftRight_eq_div_pow]

theorem ofBitVec_unpackSign :
    (Sign.ofBitVec (unpackSign b) == .negative) = decide (signBit ≤ b.toNat) := by
  have hlt : b.toNat < signBit * 2 := b.isLt
  have h : (unpackSign b).toNat = b.toNat / signBit := by
    simp only [unpackSign, BitVec.extractLsb, BitVec.toNat_cast, BitVec.extractLsb'_toNat,
      Nat.shiftRight_eq_div_pow]
    exact Nat.mod_eq_of_lt (Nat.div_lt_of_lt_mul hlt)
  have hzero : unpackSign b = 0#1 ↔ ¬ signBit ≤ b.toNat := by
    rw [← BitVec.toNat_inj, h]
    simp only [BitVec.toNat_ofNat, Nat.zero_mod, Nat.div_eq_zero_iff]
    simp [signBit]
  unfold Sign.ofBitVec
  split
  · next hs =>
    rw [decide_eq_false (hzero.1 hs)]
    rfl
  · next hs =>
    rw [decide_eq_true (Classical.not_not.1 (mt hzero.2 hs))]
    rfl

theorem ofBits_toNat : Reading.ofBits b.toNat = .ofUnpacked (unpack Format.binary64 b) := by
  have hfraction : b.toNat % leadingOne < 2 ^ 52 := Nat.mod_lt _ (by decide)
  have hm : unpackMantissa b = 0#_ ↔ b.toNat % leadingOne = 0 := by
    rw [← BitVec.toNat_inj, toNat_unpackMantissa]
    rfl
  have he (k : Nat) (hk : k < 2048) :
      unpackExponent b = BitVec.ofNat _ k ↔ b.toNat / leadingOne % 2048 = k := by
    have hkeeps : k % 2 ^ Format.binary64.exponentBits = k := Nat.mod_eq_of_lt hk
    rw [← BitVec.toNat_inj, toNat_unpackExponent, BitVec.toNat_ofNat, hkeeps]
  have htop : (-1#_ : BitVec Format.binary64.exponentBits) = BitVec.ofNat _ 2047 := rfl
  unfold Reading.ofBits UnpackedFloat.unpack
  simp only [htop, he 2047 (by decide), he 0 (by decide), hm, ← ofBitVec_unpackSign]
  split
  · split <;> rfl
  · split
    · split
      · next h => simp only [Reading.ofUnpacked, h]
      · next h _ =>
        simp only [Reading.ofUnpacked, toNat_unpackMantissa, toNat_unpackExponent, h]
        rfl
    · simp only [Reading.ofUnpacked, BitVec.toNat_append, toNat_unpackMantissa,
        toNat_unpackExponent]
      refine congrArg Reading.finite (Parts.mk.injEq .. ▸ ⟨rfl, ?_, ?_⟩)
      · exact Nat.two_pow_add_eq_or_of_lt hfraction 1
      · change lowestExponent + (Int.ofNat _ - 1) = _ - (1075 : Int)
        simp only [lowestExponent, Int.ofNat_eq_natCast]
        omega

end Bits

/-- **A double is read as what arithmetic takes it apart into.** -/
theorem read_eq (x : Float) : read x = .ofUnpacked x.toModel.unpack :=
  ofBits_toNat _

/-- The one form of a finite double that is not zero: a significand of fifty-three bits, or of fewer
at the lowest exponent. -/
structure Canonical (m : Nat) (e : Int) : Prop where
  lt : m < 2 ^ 53
  lowest_le : -1074 ≤ e
  le_highest : e ≤ 971
  leading : 2 ^ 52 ≤ m ∨ e = -1074

theorem canonical_of_ofBits {n : Nat} {p : Parts} (h : Reading.ofBits n = .finite p) :
    Canonical p.significand p.exponent := by
  have hfraction : n % leadingOne < 2 ^ 52 := Nat.mod_lt _ (by decide)
  have hbiased : n / leadingOne % 2048 < 2048 := Nat.mod_lt _ (by decide)
  revert h
  fun_cases Reading.ofBits n with
  | case1 => nofun
  | case2 => nofun
  | case3 =>
    rintro ⟨⟩
    exact ⟨Nat.lt_trans hfraction (by decide), (by decide : -1074 ≤ lowestExponent),
      (by decide : lowestExponent ≤ 971), .inr rfl⟩
  | case4 negative biased fraction htop hlowest =>
    rintro ⟨⟩
    change Canonical (2 ^ 52 + fraction) (-1074 + ((biased : Int) - 1))
    change fraction < 2 ^ 52 at hfraction
    change biased < 2048 at hbiased
    exact ⟨by omega, by omega, by omega, .inl (by omega)⟩

theorem canonical_of_unpack {x : Float} {s : Sign} {m : Nat} {e : Int} {hm : 0 < m}
    (h : x.toModel.unpack = .finite s m e hm) : Canonical m e := by
  have hread : read x = .finite ⟨s == .negative, m, e⟩ := by
    rw [read_eq, h]
    rfl
  exact canonical_of_ofBits hread

/-! ## The number of a double -/

/-- The number of a double that has been taken apart; zero for NaN. -/
noncomputable def unpackedToEReal : UnpackedFloat → EReal
  | .notANumber => 0
  | .infinity .positive => ⊤
  | .infinity .negative => ⊥
  | .zero _ => 0
  | .finite .positive m e _ => ((m * 2 ^ e : ℝ) : EReal)
  | .finite .negative m e _ => ((-(m * 2 ^ e) : ℝ) : EReal)

/-- The number a double stands for; zero for NaN. -/
noncomputable def toEReal (x : Float) : EReal :=
  unpackedToEReal x.toModel.unpack

/-- A number under a sign. -/
def withSign {α : Type} [Neg α] : Sign → α → α
  | .positive, x => x
  | .negative, x => -x

/-- The sign of a double that is read. -/
def signOf (negative : Bool) : Sign :=
  if negative then .negative else .positive

/-- The number of a finite double that is read. -/
noncomputable def Parts.value (parts : Parts) : ℝ :=
  withSign (signOf parts.negative) (parts.significand * 2 ^ parts.exponent : ℝ)

variable {m m' : Nat} {e e' : Int}

theorem Canonical.pos_lt (h : Canonical m e) (h' : Canonical m' e') (hlt : e < e') :
    (m * 2 ^ e : ℝ) < m' * 2 ^ e' := by
  have hm : (m : ℝ) < 2 ^ 53 := by exact_mod_cast h.lt
  have hm' : (2 ^ 52 : ℝ) ≤ m' := by
    have := h.lowest_le
    exact_mod_cast h'.leading.resolve_right (by omega)
  calc (m * 2 ^ e : ℝ) < 2 ^ 53 * 2 ^ e := by gcongr
    _ = 2 ^ 52 * 2 ^ (e + 1) := by rw [zpow_add_one₀ two_ne_zero]; ring
    _ ≤ m' * 2 ^ e' := by
      gcongr
      · norm_num
      · omega

/-- Magnitudes compare as their exponents do, and then their significands. -/
theorem Canonical.compares (h : Canonical m e) (h' : Canonical m' e') :
    ((compare e e').then (compare m m')).Compares (m * 2 ^ e : ℝ) (m' * 2 ^ e' : ℝ) := by
  have hpow : (0 : ℝ) < 2 ^ e := by positivity
  obtain hlt | rfl | hgt := lt_trichotomy e e'
  · rw [compare_lt_iff_lt.2 hlt]
    exact h.pos_lt h' hlt
  · rw [compare_eq_iff_eq.2 rfl]
    obtain hlt | rfl | hgt := lt_trichotomy m m'
    · rw [compare_lt_iff_lt.2 hlt]
      exact mul_lt_mul_of_pos_right (Nat.cast_lt.2 hlt) hpow
    · rw [compare_eq_iff_eq.2 rfl]
      rfl
    · rw [compare_gt_iff_gt.2 hgt]
      exact mul_lt_mul_of_pos_right (Nat.cast_lt.2 hgt) hpow
  · rw [compare_gt_iff_gt.2 hgt]
    exact h'.pos_lt h hgt

/-- A finite double that has been taken apart is in its one form. -/
def IsCanonical : UnpackedFloat → Prop
  | .finite _ m e _ => Canonical m e
  | _ => True

theorem isCanonical_unpack (x : Float) : IsCanonical x.toModel.unpack := by
  cases h : x.toModel.unpack with
  | finite s m e hm => exact canonical_of_unpack h
  | _ => trivial

theorem compares_coe {o : Ordering} {p q : ℝ} (h : o.Compares p q) :
    o.Compares (p : EReal) (q : EReal) := by
  cases o with
  | lt => exact EReal.coe_lt_coe h
  | eq => exact congrArg _ h
  | gt => exact EReal.coe_lt_coe h

theorem compares_neg {o : Ordering} {p q : ℝ} (h : o.Compares p q) :
    o.swap.Compares (-p) (-q) := by
  cases o with
  | lt => exact neg_lt_neg h
  | eq => exact congrArg _ h
  | gt => exact neg_lt_neg h

/-- Doubles compare as the numbers they stand for. -/
theorem compares_of_compare {a b : UnpackedFloat} (ha : IsCanonical a) (hb : IsCanonical b) {o}
    (h : a.compare b = some o) : o.Compares (unpackedToEReal a) (unpackedToEReal b) := by
  have hpos {m : Nat} {e : Int} (hm : 0 < m) : (0 : EReal) < (m * 2 ^ e : ℝ) :=
    EReal.coe_pos.2 (by positivity)
  have hneg {m : Nat} {e : Int} (hm : 0 < m) : ((-(m * 2 ^ e) : ℝ) : EReal) < 0 := by
    rw [EReal.coe_neg, EReal.neg_lt_comm, neg_zero]
    exact hpos hm
  cases a with
  | notANumber => cases h
  | infinity s =>
    cases b with
    | notANumber => cases s <;> cases h
    | infinity s' =>
      cases s <;> cases s' <;> cases h <;> first | rfl | exact bot_lt_top
    | zero s' =>
      cases s <;> cases h <;> first | exact EReal.bot_lt_zero | exact EReal.zero_lt_top
    | finite s' m' e' hm' =>
      cases s <;> cases s' <;> cases h <;>
        first | exact EReal.bot_lt_coe _ | exact EReal.coe_lt_top _
  | zero s =>
    cases b with
    | notANumber => cases h
    | infinity s' =>
      cases s' <;> cases h <;> first | exact EReal.bot_lt_zero | exact EReal.zero_lt_top
    | zero s' =>
      cases h
      rfl
    | finite s' m' e' hm' =>
      cases s' <;> cases h
      · exact hneg hm'
      · exact hpos hm'
  | finite s m e hm =>
    cases b with
    | notANumber => cases s <;> cases h
    | infinity s' =>
      cases s <;> cases s' <;> cases h <;>
        first | exact EReal.bot_lt_coe _ | exact EReal.coe_lt_top _
    | zero s' =>
      cases s <;> cases h
      · exact hneg hm
      · exact hpos hm
    | finite s' m' e' hm' =>
      have hcompares : ((compare e e').then (compare m m')).Compares (m * 2 ^ e : ℝ)
        (m' * 2 ^ e' : ℝ) := Canonical.compares ha hb
      cases s <;> cases s' <;> cases h
      · exact compares_coe (compares_neg hcompares)
      · exact (hneg hm).trans (hpos hm')
      · exact (hneg hm').trans (hpos hm)
      · exact compares_coe hcompares

/-- NaN alone cannot be compared. -/
theorem exists_compare_iff {a b : UnpackedFloat} :
    (∃ o, a.compare b = some o) ↔ a.isNaN = false ∧ b.isNaN = false := by
  rcases a with ⟨_ | _⟩ | _ | _ | ⟨_ | _, _, _, _⟩ <;>
    rcases b with ⟨_ | _⟩ | _ | _ | ⟨_ | _, _, _, _⟩ <;>
    first
    | exact iff_of_true ⟨_, rfl⟩ ⟨rfl, rfl⟩
    | exact iff_of_false nofun nofun

variable {x y z : Float}

theorem exists_compares (hx : x.isNaN = false) (hy : y.isNaN = false) :
    ∃ o, x.toModel.unpack.compare y.toModel.unpack = some o ∧
      o.Compares (toEReal x) (toEReal y) := by
  obtain ⟨o, ho⟩ := exists_compare_iff.2 ⟨hx, hy⟩
  exact ⟨o, ho, compares_of_compare (isCanonical_unpack x) (isCanonical_unpack y) ho⟩

theorem lt_iff_compare : x < y ↔ x.toModel.unpack.compare y.toModel.unpack = some .lt :=
  decide_eq_true_iff.trans (beq_iff_eq (α := Option Ordering))

theorem le_iff_compare :
    x ≤ y ↔ ∃ o, x.toModel.unpack.compare y.toModel.unpack = some o ∧ o.isLE = true :=
  decide_eq_true_iff.trans (Option.any_eq_true ..)

/-- **A double is below another if its number is.** NaN is in order with nothing. -/
theorem lt_iff : x < y ↔ x.isNaN = false ∧ y.isNaN = false ∧ toEReal x < toEReal y := by
  rw [lt_iff_compare]
  constructor
  · intro h
    obtain ⟨hx, hy⟩ := exists_compare_iff.1 ⟨_, h⟩
    obtain ⟨o, ho, hcompares⟩ := exists_compares hx hy
    exact ⟨hx, hy, hcompares.eq_lt.1 (Option.some.inj (ho.symm.trans h))⟩
  · rintro ⟨hx, hy, hlt⟩
    obtain ⟨o, ho, hcompares⟩ := exists_compares hx hy
    rw [ho, hcompares.eq_lt.2 hlt]

theorem le_iff : x ≤ y ↔ x.isNaN = false ∧ y.isNaN = false ∧ toEReal x ≤ toEReal y := by
  rw [le_iff_compare]
  constructor
  · rintro ⟨o, ho, hle⟩
    obtain ⟨hx, hy⟩ := exists_compare_iff.1 ⟨_, ho⟩
    obtain ⟨o', ho', hcompares⟩ := exists_compares hx hy
    obtain rfl : o = o' := Option.some.inj (ho.symm.trans ho')
    exact ⟨hx, hy, hcompares.ne_gt.1 (Ordering.isLE_iff_ne_gt.1 hle)⟩
  · rintro ⟨hx, hy, hle⟩
    obtain ⟨o, ho, hcompares⟩ := exists_compares hx hy
    exact ⟨o, ho, Ordering.isLE_iff_ne_gt.2 (hcompares.ne_gt.2 hle)⟩

theorem not_lt_iff (hx : x.isNaN = false) (hy : y.isNaN = false) : ¬ x < y ↔ y ≤ x := by
  rw [lt_iff, le_iff]
  simp only [hx, hy, true_and, not_lt]

theorem le_of_lt (h : x < y) : x ≤ y := by
  obtain ⟨hx, hy, hlt⟩ := lt_iff.1 h
  exact le_iff.2 ⟨hx, hy, hlt.le⟩

theorem le_self (hx : x.isNaN = false) : x ≤ x :=
  le_iff.2 ⟨hx, hx, le_rfl⟩

theorem le_trans (h : x ≤ y) (h' : y ≤ z) : x ≤ z := by
  obtain ⟨hx, -, hxy⟩ := le_iff.1 h
  obtain ⟨-, hz, hyz⟩ := le_iff.1 h'
  exact le_iff.2 ⟨hx, hz, hxy.trans hyz⟩

/-! ## NaN -/

theorem unpack_of_isNaN (hx : x.isNaN = true) : x.toModel.unpack = .notANumber := by
  have h : x.toModel.unpack.isNaN = true := hx
  cases hu : x.toModel.unpack with
  | notANumber => rfl
  | _ => rw [hu] at h; cases h

theorem isNaN_pack : (Float.Model.pack .notANumber).isNaN = true := by
  decide +kernel

theorem isNaN_add (hx : x.isNaN = true) : (x + y).isNaN = true := by
  change (Float.Model.pack (UnpackedFloat.add _ x.toModel.unpack _)).isNaN = true
  rw [unpack_of_isNaN hx]
  exact isNaN_pack

theorem isNaN_sub (hx : x.isNaN = true) : (x - y).isNaN = true := by
  change (Float.Model.pack (UnpackedFloat.sub _ x.toModel.unpack _)).isNaN = true
  rw [unpack_of_isNaN hx]
  exact isNaN_pack

/-! ## Bounds -/

/-- The double lies within bounds. -/
def Within (low high x : Float) : Prop :=
  low ≤ x ∧ x ≤ high

variable {low high : Float}

instance : Decidable (Within low high x) :=
  inferInstanceAs (Decidable (low ≤ x ∧ x ≤ high))

theorem Within.isNaN (h : Within low high x) : x.isNaN = false :=
  (le_iff.1 h.1).2.1

/-- **A number is moved within the bounds.** -/
theorem within_clamp (h : low < high) (hx : x.isNaN = false) :
    Within low high (clamp low high x) := by
  obtain ⟨hlow, hhigh, -⟩ := lt_iff.1 h
  let raised := if x < low then low else x
  have hraised : low ≤ raised ∧ raised.isNaN = false := by
    by_cases hbelow : x < low
    · rw [show raised = low from if_pos hbelow]
      exact ⟨le_self hlow, hlow⟩
    · rw [show raised = x from if_neg hbelow]
      exact ⟨(not_lt_iff hx hlow).1 hbelow, hx⟩
  change Within low high (if high < raised then high else raised)
  split
  · exact ⟨le_of_lt h, le_self hhigh⟩
  · next habove => exact ⟨hraised.1, (not_lt_iff hhigh hraised.2).1 habove⟩

/-- NaN is passed on. -/
theorem clamp_of_isNaN (hx : x.isNaN = true) : clamp low high x = x := by
  have hnot (y : Float) : ¬ x < y ∧ ¬ y < x := by
    simp only [lt_iff, hx]
    simp
  simp only [clamp, if_neg (hnot _).1, if_neg (hnot _).2]

/-- The smaller of two doubles is not above a bound that is one of them. -/
theorem least_le (hy : y.isNaN = false) : least x y ≤ y := by
  unfold least
  split
  · exact le_self hy
  · next hx =>
    split
    · exact le_self hy
    · next hlt => exact (not_lt_iff hy (Bool.eq_false_iff.2 hx)).1 hlt

theorem le_greatest (hy : y.isNaN = false) : y ≤ greatest x y := by
  unfold greatest
  split
  · exact le_self hy
  · next hx =>
    split
    · exact le_self hy
    · next hlt => exact (not_lt_iff (Bool.eq_false_iff.2 hx) hy).1 hlt

/-- What the upper bound cuts off lies within the bounds, unless it is below the lower one. -/
theorem within_least_iff (h : low < high) : Within low high (least x high) ↔ ¬ x < low := by
  obtain ⟨hlow, hhigh, hlt⟩ := lt_iff.1 h
  have hhighest : Within low high high := ⟨le_of_lt h, le_self hhigh⟩
  unfold least
  split
  · next hx =>
    exact iff_of_true hhighest fun hbelow => Bool.eq_false_iff.1 (lt_iff.1 hbelow).1 hx
  · next hx =>
    have hx := Bool.eq_false_iff.2 hx
    split
    · next habove =>
      refine iff_of_true hhighest fun hbelow => ?_
      exact lt_asymm (hlt.trans (lt_iff.1 habove).2.2) (lt_iff.1 hbelow).2.2
    · next hle => rw [not_lt_iff hx hlow, Within, and_iff_left ((not_lt_iff hhigh hx).1 hle)]

theorem within_greatest_iff (h : low < high) : Within low high (greatest x low) ↔ ¬ high < x := by
  obtain ⟨hlow, hhigh, hlt⟩ := lt_iff.1 h
  have hlowest : Within low high low := ⟨le_self hlow, le_of_lt h⟩
  unfold greatest
  split
  · next hx =>
    exact iff_of_true hlowest fun habove => Bool.eq_false_iff.1 (lt_iff.1 habove).2.1 hx
  · next hx =>
    have hx := Bool.eq_false_iff.2 hx
    split
    · next hbelow =>
      refine iff_of_true hlowest fun habove => ?_
      exact lt_asymm ((lt_iff.1 hbelow).2.2.trans hlt) (lt_iff.1 habove).2.2
    · next hle => rw [not_lt_iff hhigh hx, Within, and_iff_right ((not_lt_iff hx hlow).1 hle)]

end MachinePanel.Binary64
