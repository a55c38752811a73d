/-
The arithmetic of doubles. Sums, differences, products and quotients of real numbers are rounded
(`rounds_add`, `rounds_sub`, `rounds_mul`, `rounds_div`); an infinity that meets a real number stays
an infinity.
-/
import MachinePanel.Proofs.Rounding

namespace MachinePanel.Binary64

open Float.Model Float.Model.UnpackedFloat

variable {m : Nat} {e : Int} {p q : ℝ} {x y : Float}

/-! ## Rounding under a sign -/

theorem coe_withSign (s : Sign) (p : ℝ) :
    ((withSign s p : ℝ) : EReal) = withSign s (p : EReal) := by
  cases s <;> rfl

theorem rounds_roundWithAccuracy (s : Sign) {acc : Accuracy} (hle : m * 2 ^ e ≤ p)
    (hlt : p < (m + 1) * 2 ^ e) (hclear : p = m * 2 ^ e → acc = .exact)
    (he : e ≤ Format.binary64.targetExponent (totalExponent m e)) :
    Rounds (withSign s p) (packed (roundWithAccuracy .binary64 s m e acc)) := by
  have hpositive := rounds_positive hle hlt hclear he
  cases s with
  | positive => exact hpositive
  | negative =>
    obtain ⟨em, e', hshift, hfits⟩ := fits_shiftToTargetExponent hle hlt hclear he
    obtain ⟨q, -, hpacked⟩ := exists_rounded hshift hfits
    obtain ⟨hnan, hvalue⟩ := hpacked .negative
    refine hpositive.neg hnan ?_
    rw [hvalue, (hpacked .positive).2]
    rfl

theorem shiftLeft_mul_zpow (m k : Nat) (e : Int) :
    ((m <<< k : Nat) * 2 ^ (e - k) : ℝ) = m * 2 ^ e := by
  rw [Nat.shiftLeft_eq, zpow_sub₀ two_ne_zero, zpow_natCast]
  push_cast
  field_simp

theorem log2_shiftLeft (hm : 0 < m) (k : Nat) : (m <<< k).log2 = m.log2 + k := by
  rw [Nat.shiftLeft_eq, Nat.log2_eq_iff (by positivity), pow_add, pow_succ, pow_add]
  have hle := Nat.log2_self_le hm.ne'
  have hlt := Nat.lt_log2_self (n := m)
  constructor
  · gcongr
  · rw [mul_right_comm, ← pow_succ]
    gcongr

/-- **A whole number times a power of two is rounded.** -/
theorem rounds_round (s : Sign) (hm : 0 < m) (e : Int) :
    Rounds (withSign s (m * 2 ^ e : ℝ)) (packed (UnpackedFloat.round .binary64 s m e)) := by
  unfold UnpackedFloat.round decreaseExponent
  simp only
  rw [← shiftLeft_mul_zpow m (e - Format.binary64.targetExponent (totalExponent m e)).toNat e]
  refine rounds_roundWithAccuracy s le_rfl ?_ (fun _ => rfl) ?_
  · gcongr
    exact lt_add_one _
  · rw [targetExponent_eq, targetExponent_eq, totalExponent, totalExponent, log2_shiftLeft hm]
    omega

theorem rounds_zero (s : Sign) : Rounds 0 (packed (.zero s)) :=
  rounds_self (isNaN_packed (u := .zero s) trivial) (toEReal_packed (u := .zero s) trivial)

theorem rounds_normalize (n e : Int) (zero : Sign) :
    Rounds (n * 2 ^ e) (packed (UnpackedFloat.normalize .binary64 n e zero)) := by
  unfold UnpackedFloat.normalize
  obtain hlt | rfl | hgt := lt_trichotomy n 0
  · rw [compare_lt_iff_lt.2 hlt]
    have h := rounds_round .negative (m := (-n).toNat) (by omega) e
    have hn : (((-n).toNat : Nat) : ℝ) = -n := by
      exact_mod_cast Int.toNat_of_nonneg (by omega : 0 ≤ -n)
    rwa [withSign, hn, neg_mul, neg_neg] at h
  · rw [compare_eq_iff_eq.2 rfl, Int.cast_zero, zero_mul]
    exact rounds_zero zero
  · rw [compare_gt_iff_gt.2 hgt]
    have h := rounds_round .positive (m := n.toNat) (by omega) e
    have hn : ((n.toNat : Nat) : ℝ) = n := by exact_mod_cast Int.toNat_of_nonneg (by omega : 0 ≤ n)
    rwa [withSign, hn] at h

/-! ## Operations -/

/-- A double that is a real number is a zero or a number in its one form. -/
theorem unpack_cases (hx : x.isNaN = false) (hp : toEReal x = p) :
    (∃ s, x.toModel.unpack = .zero s ∧ p = 0) ∨
      ∃ s m e hm, x.toModel.unpack = .finite s m e hm ∧ Canonical m e ∧
        p = withSign s (m * 2 ^ e : ℝ) := by
  have hx : x.toModel.unpack.isNaN = false := hx
  unfold toEReal at hp
  cases h : x.toModel.unpack with
  | notANumber =>
    rw [h] at hx
    cases hx
  | infinity s =>
    rw [h] at hp
    cases s
    · exact absurd hp.symm (EReal.coe_ne_bot p)
    · exact absurd hp.symm (EReal.coe_ne_top p)
  | zero s =>
    rw [h] at hp
    exact .inl ⟨s, rfl, EReal.coe_eq_zero.1 hp.symm⟩
  | finite s m e hm =>
    rw [h, unpackedToEReal_finite, ← coe_withSign] at hp
    exact .inr ⟨s, m, e, hm, rfl, canonical_of_unpack h, (EReal.coe_injective hp).symm⟩

theorem rounds_unpack (hx : x.isNaN = false) (hp : toEReal x = p) :
    Rounds p (packed x.toModel.unpack) :=
  rounds_self ((isNaN_packed (isCanonical_unpack x)).trans hx)
    ((toEReal_packed (isCanonical_unpack x)).trans hp)

theorem apply_shiftLeft (s : Sign) (m k : Nat) (e : Int) :
    ((s.apply (m <<< k : Nat) : Int) : ℝ) * 2 ^ (e - k) = withSign s (m * 2 ^ e : ℝ) := by
  rw [← shiftLeft_mul_zpow m k e]
  cases s with
  | positive => rfl
  | negative =>
    change ((-((m <<< k : Nat) : Int) : Int) : ℝ) * _ = -_
    rw [Int.cast_neg, neg_mul]
    rfl

/-- The sum of two numbers that are brought to one exponent. -/
theorem apply_add_apply (s s' : Sign) (m m' : Nat) (e e' : Int) :
    ((s.apply (m <<< (e - min e e').toNat : Nat) +
        s'.apply (m' <<< (e' - min e e').toNat : Nat) : Int) : ℝ) * 2 ^ min e e' =
      withSign s (m * 2 ^ e : ℝ) + withSign s' (m' * 2 ^ e' : ℝ) := by
  have h : min e e' = e - (e - min e e').toNat := by omega
  have h' : min e e' = e' - (e' - min e e').toNat := by omega
  rw [← apply_shiftLeft s m (e - min e e').toNat, ← apply_shiftLeft s' m' (e' - min e e').toNat,
    ← h, ← h', Int.cast_add, add_mul]

theorem rounds_add (hx : x.isNaN = false) (hp : toEReal x = p) (hy : y.isNaN = false)
    (hq : toEReal y = q) : Rounds (p + q) (x + y) := by
  change Rounds _ (packed (UnpackedFloat.add .binary64 x.toModel.unpack y.toModel.unpack))
  have hxr := rounds_unpack hx hp
  have hyr := rounds_unpack hy hq
  obtain ⟨s, hs, rfl⟩ | ⟨s, m, e, hm, hs, -, rfl⟩ := unpack_cases hx hp
  · rw [zero_add]
    obtain ⟨s', hs', rfl⟩ | ⟨s', m', e', hm', hs', -, rfl⟩ := unpack_cases hy hq
    · rw [hs, hs']
      simp only [UnpackedFloat.add]
      split <;> exact rounds_zero _
    · rw [hs, hs']
      rw [hs'] at hyr
      exact hyr
  · obtain ⟨s', hs', rfl⟩ | ⟨s', m', e', hm', hs', -, rfl⟩ := unpack_cases hy hq
    · rw [hs, hs', add_zero]
      rw [hs] at hxr
      exact hxr
    · rw [hs, hs', ← apply_add_apply]
      exact rounds_normalize _ _ _

/-- To subtract is to add the opposite. -/
theorem sub_eq_add_opposite (a b : UnpackedFloat) :
    UnpackedFloat.sub .binary64 a b = UnpackedFloat.add .binary64 a b.neg := by
  have happly (s : Sign) (n : Int) : (-s).apply n = -s.apply n := by
    cases s
    · exact (neg_neg n).symm
    · rfl
  cases a <;> cases b <;>
    first
    | rfl
    | simp only [UnpackedFloat.sub, UnpackedFloat.add, UnpackedFloat.neg, happly,
        Int.sub_eq_add_neg]

theorem rounds_sub (hx : x.isNaN = false) (hp : toEReal x = p) (hy : y.isNaN = false)
    (hq : toEReal y = q) : Rounds (p - q) (x - y) := by
  have h : Rounds (p + -q) (x + packed y.toModel.unpack.neg) := by
    refine rounds_add hx hp ((isNaN_opposite y).trans hy) ?_
    rw [toEReal_opposite, hq, EReal.coe_neg]
  change Rounds _ (packed (UnpackedFloat.add .binary64 x.toModel.unpack
    (packed y.toModel.unpack.neg).toModel.unpack)) at h
  rw [unpack_packed (isCanonical_neg (isCanonical_unpack y)), ← sub_eq_add_opposite] at h
  rwa [sub_eq_add_neg]

/-! ## Products and quotients -/

theorem withSign_mul (s s' : Sign) (p q : ℝ) :
    withSign (s * s') (p * q) = withSign s p * withSign s' q := by
  cases s <;> cases s'
  · exact (neg_mul_neg p q).symm
  · exact (neg_mul p q).symm
  · exact (mul_neg p q).symm
  · rfl

theorem withSign_div (s s' : Sign) (p q : ℝ) :
    withSign (s / s') (p / q) = withSign s p / withSign s' q := by
  cases s <;> cases s'
  · exact (neg_div_neg_eq p q).symm
  · exact (neg_div q p).symm
  · exact (div_neg p).symm
  · rfl

theorem rounds_mul (hx : x.isNaN = false) (hp : toEReal x = p) (hy : y.isNaN = false)
    (hq : toEReal y = q) : Rounds (p * q) (x * y) := by
  change Rounds _ (packed (UnpackedFloat.mul .binary64 x.toModel.unpack y.toModel.unpack))
  obtain ⟨s, hs, rfl⟩ | ⟨s, m, e, hm, hs, hc, rfl⟩ := unpack_cases hx hp
  · rw [zero_mul]
    obtain ⟨s', hs', rfl⟩ | ⟨s', m', e', hm', hs', -, rfl⟩ := unpack_cases hy hq <;>
      rw [hs, hs'] <;> exact rounds_zero _
  · obtain ⟨s', hs', rfl⟩ | ⟨s', m', e', hm', hs', hc', rfl⟩ := unpack_cases hy hq
    · rw [hs, hs', mul_zero]
      exact rounds_zero _
    · have hvalue : (m * 2 ^ e * (m' * 2 ^ e') : ℝ) = (m * m' : Nat) * 2 ^ (e + e') := by
        rw [zpow_add₀ two_ne_zero]
        push_cast
        ring
      rw [hs, hs', ← withSign_mul, hvalue]
      refine rounds_roundWithAccuracy _ le_rfl ?_ (fun _ => rfl) ?_
      · gcongr
        exact lt_add_one _
      · -- A mantissa of full size makes the product one; otherwise both have the lowest exponent.
        have hlog (h : 2 ^ 52 ≤ m ∨ 2 ^ 52 ≤ m') : 52 ≤ (m * m').log2 := by
          refine (Nat.le_log2 (Nat.mul_pos hm hm').ne').2 (h.elim (fun h => ?_) fun h => ?_)
          · exact h.trans (Nat.le_mul_of_pos_right m hm')
          · exact h.trans (Nat.le_mul_of_pos_left m' hm)
        have hlead := hc.leading
        have hlead' := hc'.leading
        rw [targetExponent_eq, totalExponent]
        omega

/-- A quotient of whole numbers is cut off at the units, and the remainder says if anything is
lost. -/
theorem exists_divCore (hm : 0 < m) {m' : Nat} (hm' : 0 < m') (e e' : Int) :
    ∃ n t acc, divCore .binary64 m e m' e' = (n, t, acc) ∧
      (n * 2 ^ t : ℝ) ≤ m * 2 ^ e / (m' * 2 ^ e') ∧
      (m * 2 ^ e / (m' * 2 ^ e') : ℝ) < (n + 1) * 2 ^ t ∧
      ((m * 2 ^ e / (m' * 2 ^ e') : ℝ) = n * 2 ^ t → acc = .exact) ∧
      t ≤ Format.binary64.targetExponent (totalExponent n t) := by
  let t := min (e - e') (Format.binary64.targetExponent (totalExponent m e - totalExponent m' e'))
  let k := (e - e' - t).toNat
  refine ⟨m <<< k / m', t, accuracyOfFraction (m <<< k % m') m', rfl, ?_⟩
  have ht : t = e - e' - k := by omega
  have hpow : (0 : ℝ) < 2 ^ t := by positivity
  have hm'' : (0 : ℝ) < m' := by exact_mod_cast hm'
  have hvalue : (m * 2 ^ e / (m' * 2 ^ e') : ℝ) = (m <<< k : Nat) / m' * 2 ^ t := by
    rw [ht, ← mul_div_right_comm, shiftLeft_mul_zpow, zpow_sub₀ two_ne_zero]
    field_simp
  rw [hvalue]
  refine ⟨?_, ?_, fun heq => ?_, ?_⟩
  · gcongr
    exact Nat.cast_div_le
  · gcongr
    rw [div_lt_iff₀ hm'', mul_comm]
    exact_mod_cast Nat.lt_mul_div_succ (m <<< k) hm'
  · have hdiv := mul_right_cancel₀ hpow.ne' heq
    rw [div_eq_iff hm''.ne'] at hdiv
    have hwhole : m <<< k = m <<< k / m' * m' := by exact_mod_cast hdiv
    have hmod := Nat.div_add_mod' (m <<< k) m'
    exact if_pos (by omega)
  · rw [targetExponent_eq, totalExponent, le_max_iff, or_iff_not_imp_right]
    intro hlow
    -- Here the shift makes the dividend fifty-two places longer than the divisor.
    have hk : m'.log2 + 53 ≤ m.log2 + k := by
      have htarget :
          t = min (e - e') (max (totalExponent m e - totalExponent m' e' - 53) (-1074)) := rfl
      rw [totalExponent, totalExponent] at htarget
      omega
    have hlarge : 2 ^ 52 * m' ≤ m <<< k := by
      calc 2 ^ 52 * m' ≤ 2 ^ 52 * 2 ^ (m'.log2 + 1) := by
            gcongr
            exact Nat.lt_log2_self.le
        _ = 2 ^ (m'.log2 + 53) := by ring
        _ ≤ 2 ^ (m <<< k).log2 := by
          rw [log2_shiftLeft hm]
          exact Nat.pow_le_pow_right (by decide) hk
        _ ≤ m <<< k := Nat.log2_self_le (Nat.shiftLeft_eq m k ▸ by positivity)
    have hquotient : 2 ^ 52 ≤ m <<< k / m' := (Nat.le_div_iff_mul_le hm').2 hlarge
    have hlog : 52 ≤ (m <<< k / m').log2 := (Nat.le_log2 (by omega)).2 hquotient
    omega

theorem rounds_div (hx : x.isNaN = false) (hp : toEReal x = p) (hy : y.isNaN = false)
    (hq : toEReal y = q) (hzero : q ≠ 0) : Rounds (p / q) (x / y) := by
  change Rounds _ (packed (UnpackedFloat.div .binary64 x.toModel.unpack y.toModel.unpack))
  obtain ⟨s', hs', rfl⟩ | ⟨s', m', e', hm', hs', hc', rfl⟩ := unpack_cases hy hq
  · exact absurd rfl hzero
  · obtain ⟨s, hs, rfl⟩ | ⟨s, m, e, hm, hs, hc, rfl⟩ := unpack_cases hx hp
    · rw [hs, hs', zero_div]
      exact rounds_zero _
    · obtain ⟨n, t, acc, hcore, hle, hlt, hclear, ht⟩ := exists_divCore hm hm' e e'
      rw [hs, hs', ← withSign_div]
      simp only [UnpackedFloat.div, hcore]
      exact rounds_roundWithAccuracy _ hle hlt hclear ht

/-! ## Infinities -/

section Infinities

variable {s : Sign}

theorem unpackedToEReal_eq_infinite_iff {u : UnpackedFloat} :
    unpackedToEReal u = withSign s ⊤ ↔ u = .infinity s := by
  rcases u with ⟨_ | _⟩ | _ | _ | ⟨_ | _, m, e, _⟩ <;> cases s <;>
    simp [unpackedToEReal, withSign, -EReal.coe_mul, -EReal.coe_neg]

/-- The double is an infinity. -/
def IsInfinite (s : Sign) (x : Float) : Prop :=
  x.isNaN = false ∧ toEReal x = withSign s ⊤

/-- A double that is not NaN is a real number or an infinity. -/
theorem exists_real_or_infinite (hx : x.isNaN = false) :
    (∃ p : ℝ, toEReal x = p) ∨ ∃ s, IsInfinite s x := by
  obtain ⟨s, htop | ⟨m, e, -, hfinite⟩⟩ := exists_withSign hx
  · exact .inr ⟨s, hx, htop⟩
  · exact .inl ⟨_, hfinite.trans (coe_withSign s _).symm⟩

theorem IsInfinite.unpack (h : IsInfinite s x) : x.toModel.unpack = .infinity s :=
  unpackedToEReal_eq_infinite_iff.1 h.2

theorem isInfinite_packed {u : UnpackedFloat} (h : u = .infinity s) : IsInfinite s (packed u) := by
  subst h
  exact ⟨isNaN_packed (u := .infinity s) trivial,
    (toEReal_packed (u := .infinity s) trivial).trans (unpackedToEReal_infinity s)⟩

theorem unpack_of_pos (hx : 0 < toEReal x) :
    x.toModel.unpack = .infinity .positive ∨
      ∃ m e hm, x.toModel.unpack = .finite .positive m e hm := by
  unfold toEReal at hx
  cases h : x.toModel.unpack with
  | infinity s =>
    rw [h] at hx
    cases s
    · exact absurd hx not_lt_bot
    · exact .inl rfl
  | finite s m e hm =>
    rw [h] at hx
    cases s
    · have hneg : (-(m * 2 ^ e) : ℝ) ≤ 0 := neg_nonpos.2 (by positivity)
      exact absurd (EReal.coe_pos.1 hx) hneg.not_gt
    · exact .inr ⟨m, e, hm, rfl⟩
  | _ =>
    rw [h] at hx
    exact absurd hx (lt_irrefl 0)

/-- An infinity times a number above zero is that infinity. -/
theorem IsInfinite.mul (hx : IsInfinite s x) (hy : 0 < toEReal y) : IsInfinite s (x * y) := by
  refine isInfinite_packed (u := UnpackedFloat.mul .binary64 _ _) ?_
  obtain hy | ⟨m, e, hm, hy⟩ := unpack_of_pos hy <;> rw [hx.unpack, hy] <;> cases s <;> rfl

theorem IsInfinite.div (hx : IsInfinite s x) (hy : 0 < toEReal y) (hq : toEReal y = q) :
    IsInfinite s (x / y) := by
  refine isInfinite_packed (u := UnpackedFloat.div .binary64 _ _) ?_
  obtain hy | ⟨m, e, hm, hy⟩ := unpack_of_pos hy
  · rw [toEReal, hy] at hq
    exact absurd hq.symm (EReal.coe_ne_top q)
  · rw [hx.unpack, hy]
    cases s <;> rfl

theorem IsInfinite.add (hx : IsInfinite s x) (hy : y.isNaN = false) (hq : toEReal y = q) :
    IsInfinite s (x + y) := by
  refine isInfinite_packed (u := UnpackedFloat.add .binary64 _ _) ?_
  obtain ⟨s', hs', -⟩ | ⟨s', m, e, hm, hs', -⟩ := unpack_cases hy hq <;> rw [hx.unpack, hs'] <;> rfl

theorem IsInfinite.sub (hx : IsInfinite s x) (hy : y.isNaN = false) (hq : toEReal y = q) :
    IsInfinite s (x - y) := by
  refine isInfinite_packed (u := UnpackedFloat.sub .binary64 _ _) ?_
  obtain ⟨s', hs', -⟩ | ⟨s', m, e, hm, hs', -⟩ := unpack_cases hy hq <;> rw [hx.unpack, hs'] <;> rfl

theorem IsInfinite.add_left (hy : IsInfinite s y) (hx : x.isNaN = false) (hp : toEReal x = p) :
    IsInfinite s (x + y) := by
  refine isInfinite_packed (u := UnpackedFloat.add .binary64 _ _) ?_
  obtain ⟨s', hs', -⟩ | ⟨s', m, e, hm, hs', -⟩ := unpack_cases hx hp <;> rw [hy.unpack, hs'] <;> rfl

theorem IsInfinite.sub_left (hy : IsInfinite s y) (hx : x.isNaN = false) (hp : toEReal x = p) :
    IsInfinite (-s) (x - y) := by
  refine isInfinite_packed (u := UnpackedFloat.sub .binary64 _ _) ?_
  obtain ⟨s', hs', -⟩ | ⟨s', m, e, hm, hs', -⟩ := unpack_cases hx hp <;> rw [hy.unpack, hs'] <;> rfl

theorem unpackedToEReal_ne_zero {u : UnpackedFloat} (hnan : u.isNaN = false)
    (hzero : ∀ s, u ≠ .zero s) : unpackedToEReal u ≠ 0 := by
  cases u with
  | notANumber => cases hnan
  | infinity s => cases s <;> simp [unpackedToEReal]
  | zero s => exact absurd rfl (hzero s)
  | finite s m e hm =>
    have hpos : (m * 2 ^ e : ℝ) ≠ 0 := by positivity
    cases s
    · exact EReal.coe_ne_zero.2 (neg_ne_zero.2 hpos)
    · exact EReal.coe_ne_zero.2 hpos

theorem real_of_isFinite (h : x.isFinite = true) :
    ∃ v : ℝ, x.isNaN = false ∧ toEReal x = v := by
  change x.toModel.unpack.isFinite = true at h
  change ∃ v : ℝ, x.toModel.unpack.isNaN = false ∧ unpackedToEReal x.toModel.unpack = v
  cases hu : x.toModel.unpack with
  | zero s => exact ⟨0, rfl, rfl⟩
  | finite s m e hm => exact ⟨_, rfl, (unpackedToEReal_finite s hm).trans (coe_withSign s _).symm⟩
  | _ =>
    rw [hu] at h
    cases h

/-- A quotient is a real number only of a real number by one that is not zero. -/
theorem real_of_div (hnan : (x / y).isNaN = false) (hp : toEReal (x / y) = p) :
    (∃ v : ℝ, x.isNaN = false ∧ toEReal x = v) ∧ toEReal y ≠ 0 := by
  have hnumber : UnpackedFloat.div .binary64 x.toModel.unpack y.toModel.unpack ≠ .notANumber := by
    intro h
    change (packed (UnpackedFloat.div .binary64 _ _)).isNaN = false at hnan
    rw [h, show (packed .notANumber).isNaN = true from isNaN_pack] at hnan
    cases hnan
  have hreal (s : Sign) :
      UnpackedFloat.div .binary64 x.toModel.unpack y.toModel.unpack ≠ .infinity s := by
    intro h
    have hinfinite : toEReal (x / y) = withSign s ⊤ := (isInfinite_packed h).2
    rw [hp] at hinfinite
    cases s
    · exact EReal.coe_ne_bot p hinfinite
    · exact EReal.coe_ne_top p hinfinite
  suffices h : x.toModel.unpack.isFinite = true ∧ unpackedToEReal y.toModel.unpack ≠ 0 from
    ⟨real_of_isFinite h.1, h.2⟩
  cases hx : x.toModel.unpack <;> cases hy : y.toModel.unpack <;> rw [hx, hy] at hnumber hreal <;>
    first
    | exact absurd rfl hnumber
    | exact absurd rfl (hreal _)
    | exact ⟨rfl, unpackedToEReal_ne_zero rfl nofun⟩

end Infinities

end MachinePanel.Binary64
