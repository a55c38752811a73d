/-
How the arithmetic of doubles rounds. A number is cut off at the place of doubles of its size
(`fits_shiftToTargetExponent`), and then goes to the double it is cut off to or to the next one. So
no double lies between a number and what it is rounded to (`Rounds`, `rounds_positive`). Which of
the two doubles next to a number is taken does not matter here.
-/
import Mathlib
import MachinePanel.Proofs.ExactValues

namespace MachinePanel.Binary64

open Float.Model Float.Model.UnpackedFloat

variable {m : Nat} {e : Int}

/-! ## Packing -/

theorem beq_negative_inj {s s' : Sign} (h : (s == .negative) = (s' == .negative)) : s = s' := by
  cases s <;> cases s' <;> first | rfl | cases h

theorem Reading.ofUnpacked_inj {u : UnpackedFloat} {s : Sign} (hm : 0 < m)
    (h : Reading.ofUnpacked u = .finite ⟨s == .negative, m, e⟩) : u = .finite s m e hm := by
  cases u with
  | zero s' =>
    obtain ⟨-, rfl, -⟩ := Parts.mk.inj (Reading.finite.inj h)
    exact absurd hm (Nat.lt_irrefl 0)
  | finite s' m' e' hm' =>
    obtain ⟨hs, rfl, rfl⟩ := Parts.mk.inj (Reading.finite.inj h)
    rw [beq_negative_inj hs]
  | _ => cases h

theorem ofUnpacked_packComponents (s : Sign) (biased fraction : Nat) (hbiased : biased < 2047)
    (hfraction : fraction < 2 ^ 52) :
    Reading.ofUnpacked (UnpackedFloat.unpack .binary64
      (packComponents .binary64 s (BitVec.ofNat _ biased) (BitVec.ofNat _ fraction))) =
    .finite (if biased = 0 then ⟨s == .negative, fraction, -1074⟩
      else ⟨s == .negative, 2 ^ 52 + fraction, biased - 1075⟩) := by
  have he (k : Nat) (hk : k < 2048) :
      BitVec.ofNat Format.binary64.exponentBits biased = BitVec.ofNat _ k ↔ biased = k := by
    rw [← BitVec.toNat_inj, BitVec.toNat_ofNat, BitVec.toNat_ofNat]
    change biased % 2048 = k % 2048 ↔ _
    omega
  have hm : BitVec.ofNat Format.binary64.mantissaBitsWithoutImplicit fraction = 0#_ ↔
      fraction = 0 := by
    rw [← BitVec.toNat_inj, BitVec.toNat_ofNat, BitVec.toNat_ofNat]
    change fraction % 2 ^ 52 = 0 % 2 ^ 52 ↔ _
    omega
  have htop : (-1#_ : BitVec Format.binary64.exponentBits) = BitVec.ofNat _ 2047 := rfl
  have hfractionBits : (BitVec.ofNat 52 fraction).toNat = fraction := Nat.mod_eq_of_lt hfraction
  have hbiasedBits : (BitVec.ofNat 11 biased).toNat = biased := Nat.mod_eq_of_lt (by omega)
  unfold UnpackedFloat.unpack
  simp only [unpackMantissa_packComponents, unpackExponent_packComponents,
    unpackSign_packComponents, htop, he 2047 (by decide), he 0 (by decide), hm,
    Sign.ofBitVec_toBitVec]
  rw [if_neg (by omega)]
  split
  · next hzero =>
    split
    · next h => rw [h]; rfl
    · simp only [Reading.ofUnpacked, hfractionBits, hzero]
      rfl
  · simp only [Reading.ofUnpacked, BitVec.toNat_append, hfractionBits, hbiasedBits]
    refine congrArg Reading.finite (Parts.mk.injEq .. ▸ ⟨rfl, ?_, ?_⟩)
    · exact (Nat.two_pow_add_eq_or_of_lt hfraction 1).symm
    · rfl

/-- The bits of a magnitude. -/
theorem pack_eq (s : Sign) (hm : 0 < m) (h : m < 2 ^ 53) (he : -1074 ≤ e) :
    UnpackedFloat.pack .binary64 (.finite s m e hm) =
      if 971 < e then packedInfinity .binary64 s
      else packComponents .binary64 s
        (BitVec.ofNat _ (if 2 ^ 52 ≤ m then (e + 1075).toNat else 0))
        (BitVec.ofNat _ (m % 2 ^ 52)) := by
  have hbiased : (e + Format.binary64.exponentBias +
      Format.binary64.mantissaBitsWithoutImplicit).toNat = (e + 1075).toNat := by
    change (e + (1023 : Nat) + (52 : Nat)).toNat = _
    omega
  have hlog : m.log2 + 1 = Format.binary64.mantissaBits ↔ 2 ^ 52 ≤ m := by
    change m.log2 + 1 = 53 ↔ _
    have hle : 52 ≤ m.log2 ↔ 2 ^ 52 ≤ m := Nat.le_log2 (by omega)
    have hlt : m.log2 < 53 ↔ m < 2 ^ 53 := Nat.log2_lt (by omega)
    omega
  have hfraction : BitVec.ofNat Format.binary64.mantissaBitsWithoutImplicit (m % 2 ^ 52) =
      BitVec.ofNat _ m := by
    rw [← BitVec.toNat_inj, BitVec.toNat_ofNat, BitVec.toNat_ofNat]
    exact Nat.mod_mod m (2 ^ 52)
  unfold UnpackedFloat.pack
  simp only [hbiased, hlog, hfraction]
  refine ite_congr (propext ?_) (fun _ => rfl) fun _ => ?_
  · change 2048 ≤ _ ↔ _
    omega
  · split <;> rfl

/-- **A number in its one form is packed without a loss.** -/
theorem unpack_pack {u : UnpackedFloat} (h : IsCanonical u) : (Float.Model.pack u).unpack = u := by
  cases u with
  | notANumber => rfl
  | infinity s => cases s <;> rfl
  | zero s => cases s <;> rfl
  | finite s m e hm =>
    obtain ⟨hlt, hlowest, hhighest, hleading⟩ : Canonical m e := h
    refine Reading.ofUnpacked_inj hm ?_
    change Reading.ofUnpacked (UnpackedFloat.unpack .binary64 (UnpackedFloat.pack .binary64 _)) = _
    rw [pack_eq s hm hlt hlowest, if_neg (by omega),
      ofUnpacked_packComponents s _ _ (by split <;> omega) (Nat.mod_lt _ (by decide))]
    by_cases hnormal : 2 ^ 52 ≤ m
    · rw [if_pos hnormal, if_neg (by omega)]
      refine congrArg Reading.finite (Parts.mk.injEq .. ▸ ⟨rfl, ?_, ?_⟩) <;> omega
    · rw [if_neg hnormal, if_pos rfl, hleading.resolve_left hnormal, Nat.mod_eq_of_lt (by omega)]

/-- A number beyond the highest exponent is packed as infinity. -/
theorem unpack_pack_of_overflow (s : Sign) (hm : 0 < m) (h : m < 2 ^ 53) (he : 971 < e) :
    (Float.Model.pack (.finite s m e hm)).unpack = .infinity s := by
  change UnpackedFloat.unpack .binary64 (UnpackedFloat.pack .binary64 _) = _
  rw [pack_eq s hm h (by omega), if_pos he]
  cases s <;> rfl

/-! ## Cutting off -/

/-- A mantissa is a number cut off at a place. Its two bits are clear if nothing is lost. -/
structure Cuts (em : ExtendedMantissa) (e : Int) (p : ℝ) : Prop where
  le : em.mantissa * 2 ^ e ≤ p
  lt : p < (em.mantissa + 1) * 2 ^ e
  clear : p = em.mantissa * 2 ^ e → em.roundBit = false ∧ em.stickyBit = false

variable {em : ExtendedMantissa} {p : ℝ}

theorem Cuts.shiftRightOne (h : Cuts em e p) : Cuts em.shiftRightOne (e + 1) p := by
  have hpow : (0 : ℝ) < 2 ^ e := by positivity
  have hdouble (x : ℝ) : x * 2 ^ (e + 1) = 2 * x * 2 ^ e := by
    rw [zpow_add_one₀ two_ne_zero]
    ring
  have hlow : (2 * (em.mantissa / 2 : Nat) : ℝ) ≤ em.mantissa := by
    exact_mod_cast Nat.mul_div_le em.mantissa 2
  have hhigh : (em.mantissa + 1 : ℝ) ≤ 2 * ((em.mantissa / 2 : Nat) + 1) := by
    exact_mod_cast (by omega : em.mantissa + 1 ≤ 2 * (em.mantissa / 2 + 1))
  refine ⟨?_, ?_, fun heq => ?_⟩
  · rw [hdouble]
    exact (mul_le_mul_of_nonneg_right hlow hpow.le).trans h.le
  · rw [hdouble]
    exact h.lt.trans_le (mul_le_mul_of_nonneg_right hhigh hpow.le)
  · -- The last digit that is shifted out is zero, as the number is a multiple of the new place.
    rw [hdouble] at heq
    have hle : (em.mantissa : ℝ) ≤ 2 * (em.mantissa / 2 : Nat) :=
      le_of_mul_le_mul_right (h.le.trans_eq heq) hpow
    have heven : em.mantissa = 2 * (em.mantissa / 2) := by
      have : em.mantissa ≤ 2 * (em.mantissa / 2) := by exact_mod_cast hle
      omega
    have hwhole : (em.mantissa : ℝ) = 2 * (em.mantissa / 2 : Nat) := by exact_mod_cast heven
    obtain ⟨hround, hsticky⟩ := h.clear (by rw [hwhole]; exact heq)
    simp only [ExtendedMantissa.shiftRightOne, hround, hsticky]
    exact ⟨by simp; omega, rfl⟩

theorem Cuts.shiftRight (h : Cuts em e p) (n : Nat) : Cuts (em >>> n) (e + n) p := by
  induction n with
  | zero =>
    rw [Nat.cast_zero, add_zero]
    exact h
  | succ n ih =>
    have hstep := ih.shiftRightOne
    rw [add_assoc] at hstep
    exact hstep

theorem cuts_ofMantissaAndAccuracy {acc : Accuracy} (hle : m * 2 ^ e ≤ p)
    (hlt : p < (m + 1) * 2 ^ e) (hclear : p = m * 2 ^ e → acc = .exact) :
    Cuts (.ofMantissaAndAccuracy m acc) e p := by
  have hm : (ExtendedMantissa.ofMantissaAndAccuracy m acc).mantissa = m := by
    cases acc with
    | exact => rfl
    | inexact o => cases o <;> rfl
  refine ⟨by rwa [hm], by rwa [hm], fun heq => ?_⟩
  rw [hclear (hm ▸ heq)]
  exact ⟨rfl, rfl⟩

/-- A mantissa is rounded to itself or to the next one, and to itself if nothing is lost. -/
theorem roundedMantissa_cases (em : ExtendedMantissa) :
    em.roundedMantissa = em.mantissa ∨
      em.roundedMantissa = em.mantissa + 1 ∧ ¬ (em.roundBit = false ∧ em.stickyBit = false) := by
  obtain ⟨m, round, sticky⟩ := em
  cases round <;> cases sticky
  · exact .inl rfl
  · exact .inl rfl
  · obtain h | h := Nat.mod_two_eq_zero_or_one m
    · exact .inl (congrArg (m + ·) h)
    · exact .inr ⟨congrArg (m + ·) h, by simp⟩
  · exact .inr ⟨rfl, by simp⟩

/-! ## The place of a number -/

theorem targetExponent_eq (t : Int) :
    Format.binary64.targetExponent t = max (t - 53) (-1074) :=
  rfl

/-- A mantissa of the right size is not shifted. -/
theorem shift_of_lt (hm : m < 2 ^ 53) (he : -1074 ≤ e) :
    shiftToTargetExponent .binary64 m e .exact = (⟨m, false, false⟩, e) := by
  have hlog : m.log2 < 53 := by
    by_cases hzero : m = 0
    · rw [hzero]
      decide
    · exact (Nat.log2_lt hzero).2 hm
  have hshift : (Format.binary64.targetExponent (totalExponent m e) - e).toNat = 0 := by
    rw [targetExponent_eq, totalExponent]
    omega
  simp only [shiftToTargetExponent, shiftToExponent, hshift, Nat.cast_zero, add_zero]
  rfl

/-- A mantissa that rounding has made one place longer is shifted by this place. -/
theorem shift_of_eq (he : -1074 ≤ e) :
    shiftToTargetExponent .binary64 (2 ^ 53) e .exact = (⟨2 ^ 52, false, false⟩, e + 1) := by
  have hshift : (Format.binary64.targetExponent (totalExponent (2 ^ 53) e) - e).toNat = 1 := by
    rw [targetExponent_eq, totalExponent, Nat.log2_two_pow]
    omega
  simp only [shiftToTargetExponent, shiftToExponent, hshift, Nat.cast_one]
  rfl

/-- A mantissa cut off at the place of doubles of its size. -/
structure Fits (em : ExtendedMantissa) (e : Int) (p : ℝ) : Prop extends Cuts em e p where
  lt_pow : em.mantissa < 2 ^ 53
  lowest_le : -1074 ≤ e
  leading : 2 ^ 52 ≤ em.mantissa ∨ e = -1074

/-- The first shift of rounding cuts a number off at the place of doubles of its size, if it is
given with as many digits. -/
theorem fits_shiftToTargetExponent {acc : Accuracy} (hle : m * 2 ^ e ≤ p)
    (hlt : p < (m + 1) * 2 ^ e) (hclear : p = m * 2 ^ e → acc = .exact)
    (he : e ≤ Format.binary64.targetExponent (totalExponent m e)) :
    ∃ em e', shiftToTargetExponent .binary64 m e acc = (em, e') ∧ Fits em e' p := by
  rw [targetExponent_eq, totalExponent] at he
  obtain ⟨em, e', hshift⟩ : ∃ em e', shiftToTargetExponent .binary64 m e acc = (em, e') :=
    ⟨_, _, rfl⟩
  have hcuts : Cuts em e' p := by
    have h := (cuts_ofMantissaAndAccuracy hle hlt hclear).shiftRight
      (Format.binary64.targetExponent (totalExponent m e) - e).toNat
    obtain ⟨rfl, rfl⟩ := Prod.mk.inj hshift
    exact h
  have hplace : e' = max (m.log2 + 1 + e - 53) (-1074) := by
    have h := (congrArg Prod.snd hshift).symm
    simp only [shiftToTargetExponent, shiftToExponent, targetExponent_eq, totalExponent] at h
    omega
  have hpow : (0 : ℝ) < 2 ^ e' := by positivity
  refine ⟨em, e', hshift, { hcuts with lt_pow := ?_, lowest_le := by omega, leading := ?_ }⟩
  · have hm : (m + 1 : ℝ) ≤ 2 ^ (m.log2 + 1) := by exact_mod_cast Nat.lt_log2_self
    have h : (em.mantissa * 2 ^ e' : ℝ) < 2 ^ 53 * 2 ^ e' :=
      calc (em.mantissa * 2 ^ e' : ℝ) ≤ p := hcuts.le
        _ < (m + 1) * 2 ^ e := hlt
        _ ≤ 2 ^ (m.log2 + 1) * 2 ^ e := by gcongr
        _ = 2 ^ ((m.log2 + 1 : Int) + e) := by
          rw [zpow_add₀ two_ne_zero]
          norm_cast
        _ ≤ 2 ^ (53 + e') := zpow_le_zpow_right₀ one_le_two (by omega)
        _ = 2 ^ 53 * 2 ^ e' := by
          rw [zpow_add₀ two_ne_zero]
          norm_cast
    exact_mod_cast lt_of_mul_lt_mul_right h hpow.le
  · refine or_iff_not_imp_right.2 fun hne => ?_
    have hzero : m ≠ 0 := by
      rintro rfl
      have hlog : Nat.log2 0 = 0 := Nat.log2_zero
      omega
    have hm : (2 ^ m.log2 : ℝ) ≤ m := by exact_mod_cast Nat.log2_self_le hzero
    have h : (2 ^ 52 * 2 ^ e' : ℝ) < (em.mantissa + 1) * 2 ^ e' :=
      calc (2 ^ 52 * 2 ^ e' : ℝ) = 2 ^ (52 + e') := by
            rw [zpow_add₀ two_ne_zero]
            norm_cast
        _ = 2 ^ ((m.log2 : Int) + e) := by
          congr 1
          omega
        _ = 2 ^ m.log2 * 2 ^ e := by
          rw [zpow_add₀ two_ne_zero]
          norm_cast
        _ ≤ m * 2 ^ e := by gcongr
        _ ≤ p := hle
        _ < (em.mantissa + 1) * 2 ^ e' := hcuts.lt
    have hlt' : 2 ^ 52 < em.mantissa + 1 := by
      exact_mod_cast lt_of_mul_lt_mul_right h hpow.le
    omega

/-- Doubles of the size and of greater sizes are multiples of the place; all smaller ones are below
the doubles of the size. -/
theorem Fits.grid (h : Fits em e p) {m' : Nat} {e' : Int} (h' : Canonical m' e') :
    (∃ k : Nat, (m' * 2 ^ e' : ℝ) = k * 2 ^ e) ∨ (m' * 2 ^ e' : ℝ) < em.mantissa * 2 ^ e := by
  obtain hle | hlt := le_or_gt e e'
  · refine .inl ⟨m' * 2 ^ (e' - e).toNat, ?_⟩
    have hpow : (2 : ℝ) ^ e' = 2 ^ (e' - e).toNat * 2 ^ e := by
      rw [← zpow_natCast, ← zpow_add₀ two_ne_zero]
      congr 1
      omega
    rw [hpow]
    push_cast
    ring
  · have hm' : (m' : ℝ) < 2 ^ 53 := by exact_mod_cast h'.lt
    have hlead : (2 ^ 52 : ℝ) ≤ em.mantissa := by
      have := h'.lowest_le
      exact_mod_cast h.leading.resolve_right (by omega)
    refine .inr ?_
    calc (m' * 2 ^ e' : ℝ) < 2 ^ 53 * 2 ^ e' := by gcongr
      _ = 2 ^ 52 * 2 ^ (e' + 1) := by rw [zpow_add_one₀ two_ne_zero]; ring
      _ ≤ em.mantissa * 2 ^ e := by
        gcongr
        · norm_num
        · omega

theorem Fits.le_of_le (h : Fits em e p) {m' : Nat} {e' : Int} (h' : Canonical m' e')
    (hle : m' * 2 ^ e' ≤ p) : (m' * 2 ^ e' : ℝ) ≤ em.mantissa * 2 ^ e := by
  have hpow : (0 : ℝ) < 2 ^ e := by positivity
  obtain ⟨k, hk⟩ | hbelow := h.grid h'
  · rw [hk] at hle ⊢
    have hlt : (k : ℝ) < em.mantissa + 1 := lt_of_mul_lt_mul_right (hle.trans_lt h.lt) hpow.le
    have hk' : k ≤ em.mantissa := Nat.lt_succ_iff.1 (by exact_mod_cast hlt)
    gcongr
  · exact hbelow.le

theorem Fits.eq_or_le (h : Fits em e p) {m' : Nat} {e' : Int} (h' : Canonical m' e')
    (hle : p ≤ m' * 2 ^ e') :
    p = em.mantissa * 2 ^ e ∨ ((em.mantissa + 1) * 2 ^ e : ℝ) ≤ m' * 2 ^ e' := by
  obtain ⟨k, hk⟩ | hbelow := h.grid h'
  · rw [hk] at hle ⊢
    obtain hk' | hk' := Nat.lt_or_ge em.mantissa k
    · have hsucc : (em.mantissa + 1 : ℝ) ≤ k := by exact_mod_cast hk'
      exact .inr (by gcongr)
    · have hk'' : (k : ℝ) ≤ em.mantissa := by exact_mod_cast hk'
      exact .inl (le_antisymm (hle.trans (by gcongr)) h.le)
  · exact absurd (h.le.trans hle) (not_le.2 hbelow)

/-! ## Doubles and numbers -/

/-- The double of a number that has been taken apart. -/
def packed (u : UnpackedFloat) : Float :=
  .ofModel (.pack u)

theorem unpack_packed {u : UnpackedFloat} (h : IsCanonical u) : (packed u).toModel.unpack = u :=
  unpack_pack h

theorem toEReal_packed {u : UnpackedFloat} (h : IsCanonical u) :
    toEReal (packed u) = unpackedToEReal u :=
  congrArg unpackedToEReal (unpack_pack h)

theorem isNaN_packed {u : UnpackedFloat} (h : IsCanonical u) : (packed u).isNaN = u.isNaN :=
  congrArg UnpackedFloat.isNaN (unpack_pack h)

theorem unpackedToEReal_finite (s : Sign) (hm : 0 < m) :
    unpackedToEReal (.finite s m e hm) = withSign s ((m * 2 ^ e : ℝ) : EReal) := by
  cases s <;> rfl

theorem unpackedToEReal_infinity (s : Sign) :
    unpackedToEReal (.infinity s) = withSign s (⊤ : EReal) := by
  cases s <;> rfl

theorem canonical_zero : Canonical 0 (-1074) :=
  ⟨by decide, by decide, by decide, .inr rfl⟩

theorem withSign_zero (s : Sign) : withSign s (0 : EReal) = 0 := by
  cases s
  · exact neg_zero
  · rfl

/-- A double that is not NaN is an infinity, or a number in its one form. -/
theorem exists_withSign {x : Float} (hx : x.isNaN = false) :
    ∃ s, toEReal x = withSign s ⊤ ∨
      ∃ m e, Canonical m e ∧ toEReal x = withSign s ((m * 2 ^ e : ℝ) : EReal) := by
  have hx : x.toModel.unpack.isNaN = false := hx
  unfold toEReal
  cases h : x.toModel.unpack with
  | notANumber =>
    rw [h] at hx
    cases hx
  | infinity s => exact ⟨s, .inl (unpackedToEReal_infinity s)⟩
  | zero s =>
    refine ⟨s, .inr ⟨0, -1074, canonical_zero, ?_⟩⟩
    rw [Nat.cast_zero, zero_mul, EReal.coe_zero, withSign_zero]
    rfl
  | finite s m e hm =>
    exact ⟨s, .inr ⟨m, e, canonical_of_unpack h, unpackedToEReal_finite s hm⟩⟩

theorem Canonical.lt_pow (h : Canonical m e) : (m * 2 ^ e : ℝ) < 2 ^ 1024 := by
  have hm : (m : ℝ) < 2 ^ 53 := by exact_mod_cast h.lt
  calc (m * 2 ^ e : ℝ) < 2 ^ 53 * 2 ^ e := by gcongr
    _ ≤ 2 ^ 53 * 2 ^ (971 : Int) := by
      gcongr
      · norm_num
      · exact h.le_highest
    _ = 2 ^ 1024 := by rw [show (971 : Int) = (971 : Nat) from rfl, zpow_natCast, ← pow_add]

/-- A number with a mantissa of the right size is packed as itself, or as an infinity if it is too
large for a double. -/
theorem exists_packed_finite (hm : 0 < m) (hlt : m < 2 ^ 53) (he : -1074 ≤ e)
    (hlead : 2 ^ 52 ≤ m ∨ e = -1074) :
    ∃ q : EReal, (q = (m * 2 ^ e : ℝ) ∨ (2 ^ 1024 : ℝ) ≤ m * 2 ^ e ∧ q = ⊤) ∧
      ∀ s, (packed (.finite s m e hm)).isNaN = false ∧
        toEReal (packed (.finite s m e hm)) = withSign s q := by
  obtain hhighest | hover := le_or_gt e 971
  · have hcanonical (s : Sign) : IsCanonical (.finite s m e hm) :=
      (⟨hlt, he, hhighest, hlead⟩ : Canonical m e)
    refine ⟨(m * 2 ^ e : ℝ), .inl rfl, fun s => ⟨isNaN_packed (hcanonical s), ?_⟩⟩
    rw [toEReal_packed (hcanonical s), unpackedToEReal_finite]
  · refine ⟨⊤, .inr ⟨?_, rfl⟩, fun s => ?_⟩
    · have hm' : (2 ^ 52 : ℝ) ≤ m := by exact_mod_cast hlead.resolve_right (by omega)
      calc (2 ^ 1024 : ℝ) = 2 ^ 52 * 2 ^ (972 : Int) := by
            rw [show (972 : Int) = (972 : Nat) from rfl, zpow_natCast, ← pow_add]
        _ ≤ m * 2 ^ e := by
          gcongr
          · norm_num
          · omega
    · have hunpack := unpack_pack_of_overflow s hm hlt hover
      exact ⟨congrArg UnpackedFloat.isNaN hunpack,
        (congrArg unpackedToEReal hunpack).trans (unpackedToEReal_infinity s)⟩

/-- What a number is rounded to, under either sign. -/
theorem exists_rounded {acc : Accuracy} {e' : Int}
    (hshift : shiftToTargetExponent .binary64 m e acc = (em, e')) (h : Fits em e' p) :
    ∃ q : EReal, (q = (em.roundedMantissa * 2 ^ e' : ℝ) ∨
        (2 ^ 1024 : ℝ) ≤ em.roundedMantissa * 2 ^ e' ∧ q = ⊤) ∧
      ∀ s, (packed (roundWithAccuracy .binary64 s m e acc)).isNaN = false ∧
        toEReal (packed (roundWithAccuracy .binary64 s m e acc)) = withSign s q := by
  have hround : em.roundedMantissa = em.mantissa ∨ em.roundedMantissa = em.mantissa + 1 :=
    (roundedMantissa_cases em).imp_right And.left
  have hlt := h.lt_pow
  have hlead := h.leading
  obtain hzero | hpos := Nat.eq_zero_or_pos em.roundedMantissa
  · have heq (s : Sign) : roundWithAccuracy .binary64 s m e acc = .zero s := by
      rw [roundWithAccuracy, hshift]
      dsimp only
      rw [hzero, shift_of_lt (by decide) h.lowest_le]
      rfl
    refine ⟨0, .inl (by simp [hzero]), fun s => ?_⟩
    rw [heq, withSign_zero]
    exact ⟨isNaN_packed (u := .zero s) trivial, toEReal_packed (u := .zero s) trivial⟩
  · obtain hsmall | hfull : em.roundedMantissa < 2 ^ 53 ∨ em.roundedMantissa = 2 ^ 53 := by omega
    · have heq (s : Sign) : roundWithAccuracy .binary64 s m e acc =
          .finite s em.roundedMantissa e' hpos := by
        rw [roundWithAccuracy, hshift]
        dsimp only
        rw [shift_of_lt hsmall h.lowest_le]
        exact dif_neg hpos.ne'
      simp only [heq]
      exact exists_packed_finite hpos hsmall h.lowest_le (by omega)
    · have heq (s : Sign) : roundWithAccuracy .binary64 s m e acc =
          .finite s (2 ^ 52) (e' + 1) (by decide) := by
        rw [roundWithAccuracy, hshift]
        dsimp only
        rw [hfull, shift_of_eq h.lowest_le]
        rfl
      have hvalue : (em.roundedMantissa * 2 ^ e' : ℝ) = (2 ^ 52 : Nat) * 2 ^ (e' + 1) := by
        rw [hfull, zpow_add_one₀ two_ne_zero]
        push_cast
        ring
      simp only [heq, hvalue]
      have hlowest := h.lowest_le
      exact exists_packed_finite (by decide) (by decide) (by omega) (.inl le_rfl)

/-! ## Rounding -/

/-- The double is the number rounded: no double lies between the two. -/
structure Rounds (p : ℝ) (x : Float) : Prop where
  isNaN : x.isNaN = false
  le : ∀ y : Float, y.isNaN = false → (p : EReal) ≤ toEReal y → toEReal x ≤ toEReal y
  ge : ∀ y : Float, y.isNaN = false → toEReal y ≤ p → toEReal y ≤ toEReal x

variable {x y : Float}

/-- A number that is a double is rounded to itself. -/
theorem rounds_self (hx : x.isNaN = false) (h : toEReal x = p) : Rounds p x :=
  ⟨hx, fun _ _ hle => h ▸ hle, fun _ _ hle => h ▸ hle⟩

theorem Rounds.eq_of_eq (h : Rounds p x) (hy : y.isNaN = false) (heq : toEReal y = p) :
    toEReal x = p :=
  le_antisymm (heq ▸ h.le y hy heq.ge) (heq ▸ h.ge y hy heq.le)

theorem isCanonical_neg {u : UnpackedFloat} (h : IsCanonical u) : IsCanonical u.neg := by
  cases u <;> exact h

theorem unpackedToEReal_neg (u : UnpackedFloat) :
    unpackedToEReal u.neg = -unpackedToEReal u := by
  rcases u with ⟨_ | _⟩ | _ | _ | ⟨_ | _, m, e, _⟩
  · exact EReal.neg_bot.symm
  · exact EReal.neg_top.symm
  · exact neg_zero.symm
  · exact neg_zero.symm
  · exact (neg_neg (m * 2 ^ e : ℝ) ▸ EReal.coe_neg _ :)
  · rfl

theorem toEReal_opposite (x : Float) :
    toEReal (packed x.toModel.unpack.neg) = -toEReal x := by
  rw [toEReal_packed (isCanonical_neg (isCanonical_unpack x)), unpackedToEReal_neg, toEReal]

theorem isNaN_opposite (x : Float) : (packed x.toModel.unpack.neg).isNaN = x.isNaN := by
  rw [isNaN_packed (isCanonical_neg (isCanonical_unpack x))]
  change _ = x.toModel.unpack.isNaN
  cases x.toModel.unpack <;> rfl

/-- Every double has an opposite. -/
theorem exists_neg (hx : x.isNaN = false) :
    ∃ y : Float, y.isNaN = false ∧ toEReal y = -toEReal x :=
  ⟨_, (isNaN_opposite x).trans hx, toEReal_opposite x⟩

theorem Rounds.neg (h : Rounds p x) (hy : y.isNaN = false) (heq : toEReal y = -toEReal x) :
    Rounds (-p) y := by
  refine ⟨hy, fun z hz hle => ?_, fun z hz hle => ?_⟩ <;> obtain ⟨w, hw, hneg⟩ := exists_neg hz
  · rw [heq]
    refine EReal.neg_le_of_neg_le (hneg ▸ h.ge w hw ?_)
    rw [hneg]
    exact EReal.neg_le_of_neg_le hle
  · rw [heq]
    refine EReal.le_neg_of_le_neg (hneg ▸ h.le w hw ?_)
    rw [hneg]
    exact EReal.le_neg_of_le_neg hle

/-- A number from zero on is rounded if no magnitude of a double lies between the two. -/
theorem rounds_of_magnitudes (hp : 0 ≤ p) (hx : x.isNaN = false) (hpos : 0 ≤ toEReal x)
    (habove : ∀ {m : Nat} {e : Int}, Canonical m e → p ≤ m * 2 ^ e →
      toEReal x ≤ ((m * 2 ^ e : ℝ) : EReal))
    (hbelow : ∀ {m : Nat} {e : Int}, Canonical m e → m * 2 ^ e ≤ p →
      ((m * 2 ^ e : ℝ) : EReal) ≤ toEReal x) : Rounds p x := by
  refine ⟨hx, fun y hy hle => ?_, fun y hy hle => ?_⟩
  · obtain ⟨s, htop | ⟨m, e, hm, ht⟩⟩ := exists_withSign hy
    · rw [htop] at hle ⊢
      cases s with
      | positive => exact le_top
      | negative => exact absurd hle (not_le.2 (EReal.bot_lt_coe p))
    · rw [ht] at hle ⊢
      cases s with
      | positive => exact habove hm (EReal.coe_le_coe_iff.1 hle)
      | negative =>
        -- Both numbers are zero.
        change (p : EReal) ≤ ((-(m * 2 ^ e) : ℝ) : EReal) at hle
        have hle' := EReal.coe_le_coe_iff.1 hle
        have hzero : (m * 2 ^ e : ℝ) = 0 := le_antisymm (by linarith) (by positivity)
        have hnear := habove hm (by linarith)
        rw [hzero] at hnear ⊢
        exact hnear.trans_eq neg_zero.symm
  · obtain ⟨s, htop | ⟨m, e, hm, ht⟩⟩ := exists_withSign hy
    · rw [htop] at hle ⊢
      cases s with
      | positive => exact absurd hle (not_le.2 (EReal.coe_lt_top p))
      | negative => exact bot_le
    · rw [ht] at hle ⊢
      cases s with
      | positive => exact hbelow hm (EReal.coe_le_coe_iff.1 hle)
      | negative =>
        have hneg : ((-(m * 2 ^ e) : ℝ) : EReal) ≤ (0 : ℝ) :=
          EReal.coe_le_coe (neg_nonpos.2 (by positivity))
        exact hneg.trans hpos

/-- A number that is given with as many digits as a double of its size has is rounded. -/
theorem rounds_positive {acc : Accuracy} (hle : m * 2 ^ e ≤ p)
    (hlt : p < (m + 1) * 2 ^ e) (hclear : p = m * 2 ^ e → acc = .exact)
    (he : e ≤ Format.binary64.targetExponent (totalExponent m e)) :
    Rounds p (packed (roundWithAccuracy .binary64 .positive m e acc)) := by
  obtain ⟨em, e', hshift, hfits⟩ := fits_shiftToTargetExponent hle hlt hclear he
  obtain ⟨q, hq, hpacked⟩ := exists_rounded hshift hfits
  obtain ⟨hnan, hvalue⟩ := hpacked .positive
  rw [withSign] at hvalue
  have hround := roundedMantissa_cases em
  have hcut : (0 : ℝ) ≤ em.mantissa * 2 ^ e' := by positivity
  have hlow : ((em.mantissa * 2 ^ e' : ℝ) : EReal) ≤ q := by
    obtain rfl | ⟨-, rfl⟩ := hq
    · have : em.mantissa ≤ em.roundedMantissa := by omega
      exact EReal.coe_le_coe (by gcongr)
    · exact le_top
  have hhigh {t : ℝ} (ht : t < 2 ^ 1024) (hrt : (em.roundedMantissa * 2 ^ e' : ℝ) ≤ t) :
      q ≤ (t : EReal) := by
    obtain rfl | ⟨hover, -⟩ := hq
    · exact EReal.coe_le_coe hrt
    · exact absurd (hover.trans hrt) (not_le.2 ht)
  refine rounds_of_magnitudes (hcut.trans hfits.le) hnan
    (hvalue ▸ (EReal.coe_nonneg.2 hcut).trans hlow) (fun hm hpm => ?_) fun hm hmp => ?_
  · rw [hvalue]
    refine hhigh hm.lt_pow ?_
    obtain hexact | habove := hfits.eq_or_le hm hpm
    · have hsame := hround.resolve_right fun h => h.2 (hfits.clear hexact)
      rw [hsame, ← hexact]
      exact hpm
    · have hr : (em.roundedMantissa : ℝ) ≤ em.mantissa + 1 := by
        exact_mod_cast (by omega : em.roundedMantissa ≤ em.mantissa + 1)
      exact (mul_le_mul_of_nonneg_right hr (by positivity)).trans habove
  · rw [hvalue]
    exact (EReal.coe_le_coe (hfits.le_of_le hm hmp)).trans hlow

end MachinePanel.Binary64
