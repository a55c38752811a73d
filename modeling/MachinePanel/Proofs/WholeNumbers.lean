/-
Whole numbers among the doubles. Every whole number of fifty-three bits is a double
(`toEReal_ofNat`), so that rounding a double down or up to a whole number is exact
(`toEReal_floor`, `toEReal_ceil`).
-/
import MachinePanel.Binary64.Integral
import MachinePanel.Proofs.Arithmetic

namespace MachinePanel.Binary64

open Float.Model Float.Model.UnpackedFloat

variable {p : ℝ} {x : Float}

/-! ## Small whole numbers -/

/-- Every whole number of fifty-three bits is a double. -/
theorem exists_whole {n : Nat} (hn : n < 2 ^ 53) :
    ∃ x : Float, x.isNaN = false ∧ toEReal x = (n : ℝ) := by
  obtain rfl | hpos := Nat.eq_zero_or_pos n
  · exact ⟨_, isNaN_packed (u := .zero .positive) trivial,
      (toEReal_packed (u := .zero .positive) trivial).trans (by simp [unpackedToEReal])⟩
  · have hlog : n.log2 < 53 := (Nat.log2_lt hpos.ne').2 hn
    have hpos' : 0 < n <<< (52 - n.log2) := by
      rw [Nat.shiftLeft_eq]
      positivity
    obtain ⟨hlow, hhigh⟩ : 2 ^ 52 ≤ n <<< (52 - n.log2) ∧ n <<< (52 - n.log2) < 2 ^ 53 :=
      (Nat.log2_eq_iff hpos'.ne').1 ((log2_shiftLeft hpos _).trans (by omega))
    have hcanonical : Canonical (n <<< (52 - n.log2)) (0 - (52 - n.log2 : Nat)) :=
      ⟨hhigh, by omega, by omega, .inl hlow⟩
    refine ⟨packed (.finite .positive _ _ hpos'), isNaN_packed hcanonical, ?_⟩
    refine (toEReal_packed (u := .finite .positive _ _ hpos') hcanonical).trans ?_
    rw [unpackedToEReal, shiftLeft_mul_zpow, zpow_zero, mul_one]

/-- The double one. -/
theorem toEReal_one : toEReal (Float.ofBits 0x3FF0000000000000) = (1 : ℝ) := by
  have hread : read (Float.ofBits 0x3FF0000000000000) = .finite ⟨false, 2 ^ 52, -52⟩ := by
    decide +kernel
  have h := Reading.ofUnpacked_inj (s := .positive) (by decide) ((read_eq _).symm.trans hread)
  have hvalue : ((2 ^ 52 : Nat) * 2 ^ (-52 : Int) : ℝ) = 1 := by
    rw [zpow_neg]
    norm_num
  rw [toEReal, h, unpackedToEReal, hvalue]

theorem toEReal_ofNat {n : Nat} (hn : n < 2 ^ 53) :
    (Float.ofNat n).isNaN = false ∧ toEReal (Float.ofNat n) = (n : ℝ) := by
  obtain ⟨y, hy, hvalue⟩ := exists_whole hn
  have hword : Rounds n n.toUInt64.toFloat := by
    have h : Rounds ((n.toUInt64.toNat : Int) * 2 ^ (0 : Int)) n.toUInt64.toFloat :=
      rounds_normalize n.toUInt64.toNat 0 .positive
    have hn : n.toUInt64.toNat = n := by
      simp; omega
    rwa [zpow_zero, mul_one, hn, Int.cast_natCast] at h
  have h : Rounds (n * 1) (Float.ofNat n) := by
    have hfast : Float.ofNat n = n.toUInt64.toFloat * Float.ofBits 0x3FF0000000000000 :=
      dif_pos ⟨hn, by decide⟩
    rw [hfast]
    exact rounds_mul hword.isNaN (hword.eq_of_eq hy hvalue) (by decide +kernel) toEReal_one
  rw [mul_one] at h
  exact ⟨h.isNaN, h.eq_of_eq hy hvalue⟩

/-- The number of a literal. -/
theorem toEReal_literal {n : Nat} (h : x = Float.ofNat n) (hn : n < 2 ^ 53) :
    x.isNaN = false ∧ toEReal x = (n : ℝ) :=
  h ▸ toEReal_ofNat hn

/-! ## Down and up -/

theorem toEReal_signed (negative : Bool) {n : Nat} (hn : n < 2 ^ 53) :
    (signed negative n).isNaN = false ∧
      toEReal (signed negative n) = (withSign (signOf negative) (n : ℝ) : ℝ) := by
  obtain ⟨hnan, hvalue⟩ := toEReal_ofNat hn
  cases negative with
  | false => exact ⟨hnan, hvalue⟩
  | true =>
    refine ⟨(isNaN_opposite _).trans hnan, (toEReal_opposite _).trans ?_⟩
    rw [hvalue]
    rfl

theorem exists_read (hx : x.isNaN = false) (hp : toEReal x = p) :
    ∃ parts : Parts, read x = .finite parts ∧ parts.significand < 2 ^ 53 ∧ p = parts.value := by
  have hsign (s : Sign) : signOf (s == .negative) = s := by cases s <;> rfl
  obtain ⟨s, hs, rfl⟩ | ⟨s, m, e, hm, hs, hc, rfl⟩ := unpack_cases hx hp
  · refine ⟨_, (read_eq x).trans (congrArg _ hs), Nat.two_pow_pos 53, ?_⟩
    rw [Parts.value, Nat.cast_zero, zero_mul, hsign]
    cases s
    · exact neg_zero.symm
    · rfl
  · refine ⟨_, (read_eq x).trans (congrArg _ hs), hc.lt, ?_⟩
    rw [Parts.value, hsign]

variable {parts : Parts}

/-- A magnitude with digits below the units, and its whole part. -/
theorem whole_spec (h : parts.exponent < 0) :
    (parts.whole : ℝ) ≤ parts.significand * 2 ^ parts.exponent ∧
      (parts.significand * 2 ^ parts.exponent : ℝ) < parts.whole + 1 ∧
      (parts.isWhole = true ↔ (parts.significand * 2 ^ parts.exponent : ℝ) = parts.whole) ∧
      2 * parts.whole ≤ parts.significand := by
  obtain ⟨k, hk⟩ : ∃ k : Nat, parts.exponent = -(k + 1 : Nat) :=
    ⟨(-parts.exponent - 1).toNat, by omega⟩
  have hratio : parts.ratio = (parts.significand, 2 ^ (k + 1)) := by
    have hzero : parts.exponent.toNat = 0 := by omega
    have hdigits : (-parts.exponent).toNat = k + 1 := by omega
    rw [Parts.ratio, hzero, hdigits]
    exact congrArg (·, _) (Nat.mul_one _)
  have hpow : 0 < 2 ^ (k + 1) := Nat.two_pow_pos _
  have hpow' : (0 : ℝ) < 2 ^ (k + 1) := by positivity
  have hvalue : (parts.significand * 2 ^ parts.exponent : ℝ) = parts.significand / 2 ^ (k + 1) := by
    rw [hk, zpow_neg, zpow_natCast, div_eq_mul_inv]
  have hdiv := Nat.div_add_mod' parts.significand (2 ^ (k + 1))
  have hmod := Nat.mod_lt parts.significand hpow
  rw [hvalue, Parts.isWhole, Parts.whole, hratio, beq_iff_eq]
  simp only
  refine ⟨?_, ?_, ?_, ?_⟩
  · rw [le_div_iff₀ hpow']
    exact_mod_cast Nat.div_mul_le_self _ _
  · rw [div_lt_iff₀ hpow']
    exact_mod_cast Nat.lt_mul_of_div_lt (Nat.lt_succ_self _) hpow
  · rw [div_eq_iff hpow'.ne']
    norm_cast
    omega
  · have hle : 2 ≤ 2 ^ (k + 1) := Nat.le_self_pow (by omega) 2
    calc 2 * (parts.significand / 2 ^ (k + 1))
        ≤ 2 ^ (k + 1) * (parts.significand / 2 ^ (k + 1)) := Nat.mul_le_mul_right _ hle
      _ ≤ parts.significand := Nat.mul_div_le _ _

theorem floor_eq_whole (h : parts.exponent < 0) :
    ⌊(parts.significand * 2 ^ parts.exponent : ℝ)⌋ = parts.whole := by
  obtain ⟨hle, hlt, -, -⟩ := whole_spec h
  exact Int.floor_eq_iff.2 ⟨by exact_mod_cast hle, by exact_mod_cast hlt⟩

theorem ceil_eq_whole (h : parts.exponent < 0) :
    ⌈(parts.significand * 2 ^ parts.exponent : ℝ)⌉ =
      (if !parts.isWhole then parts.whole + 1 else parts.whole : Nat) := by
  obtain ⟨hle, hlt, hwhole, -⟩ := whole_spec h
  cases hdigits : parts.isWhole with
  | true =>
    rw [hwhole.1 hdigits]
    exact Int.ceil_natCast _
  | false =>
    have hne : (parts.significand * 2 ^ parts.exponent : ℝ) ≠ parts.whole := fun heq => by
      rw [hwhole.2 heq] at hdigits
      cases hdigits
    refine Int.ceil_eq_iff.2 ⟨?_, ?_⟩
    · simpa using lt_of_le_of_ne hle hne.symm
    · simpa using hlt.le

/-- A double is replaced by a whole number. -/
theorem toEReal_toIntegral {magnitude : Parts → Nat} {near : ℝ → Int}
    (hwhole : ∀ n : Int, near n = n)
    (hnear : ∀ parts : Parts, parts.exponent < 0 → parts.significand < 2 ^ 53 →
      magnitude parts < 2 ^ 53 ∧
        withSign (signOf parts.negative) (magnitude parts : ℝ) = near parts.value)
    (hx : x.isNaN = false) (hp : toEReal x = p) :
    (toIntegral magnitude x).isNaN = false ∧ toEReal (toIntegral magnitude x) = (near p : ℝ) := by
  obtain ⟨parts, hread, hlt, rfl⟩ := exists_read hx hp
  unfold toIntegral
  rw [hread]
  simp only
  split
  · next hexponent =>
    obtain ⟨n, hn⟩ : ∃ n : Int, parts.value = n := by
      have hpow : (2 : ℝ) ^ parts.exponent = 2 ^ parts.exponent.toNat := by
        rw [← zpow_natCast, Int.toNat_of_nonneg hexponent]
      refine ⟨withSign (signOf parts.negative) (parts.significand * 2 ^ parts.exponent.toNat), ?_⟩
      rw [Parts.value, hpow]
      cases signOf parts.negative <;> simp [withSign]
    refine ⟨hx, hp.trans ?_⟩
    rw [hn, hwhole]
  · next hexponent =>
    obtain ⟨hsmall, hvalue⟩ := hnear parts (by omega) hlt
    rw [← hvalue]
    exact toEReal_signed _ hsmall

theorem toEReal_floor (hx : x.isNaN = false) (hp : toEReal x = p) :
    (floor x).isNaN = false ∧ toEReal (floor x) = (⌊p⌋ : ℝ) := by
  refine toEReal_toIntegral Int.floor_intCast (fun parts hexponent hlt => ⟨?_, ?_⟩) hx hp
  · have hhalf := (whole_spec hexponent).2.2.2
    split <;> omega
  · rw [Parts.value]
    cases parts.negative with
    | false =>
      change (parts.whole : ℝ) = ⌊(parts.significand * 2 ^ parts.exponent : ℝ)⌋
      rw [floor_eq_whole hexponent, Int.cast_natCast]
    | true =>
      change (-(if !parts.isWhole then parts.whole + 1 else parts.whole : Nat) : ℝ) =
        ⌊(-(parts.significand * 2 ^ parts.exponent) : ℝ)⌋
      rw [Int.floor_neg, ceil_eq_whole hexponent, Int.cast_neg, Int.cast_natCast]

theorem toEReal_ceil (hx : x.isNaN = false) (hp : toEReal x = p) :
    (ceil x).isNaN = false ∧ toEReal (ceil x) = (⌈p⌉ : ℝ) := by
  refine toEReal_toIntegral Int.ceil_intCast (fun parts hexponent hlt => ⟨?_, ?_⟩) hx hp
  · have hhalf := (whole_spec hexponent).2.2.2
    split <;> omega
  · rw [Parts.value]
    cases parts.negative with
    | false =>
      change ((if !parts.isWhole then parts.whole + 1 else parts.whole : Nat) : ℝ) =
        ⌈(parts.significand * 2 ^ parts.exponent : ℝ)⌉
      rw [ceil_eq_whole hexponent, Int.cast_natCast]
    | true =>
      change (-(parts.whole : Nat) : ℝ) = ⌈(-(parts.significand * 2 ^ parts.exponent) : ℝ)⌉
      rw [Int.ceil_neg, floor_eq_whole hexponent, Int.cast_neg, Int.cast_natCast]

/-- An infinity is its own whole number. -/
theorem IsInfinite.toIntegral_eq {s : Sign} (h : IsInfinite s x) (magnitude : Parts → Nat) :
    toIntegral magnitude x = x := by
  rw [toIntegral, read_eq, h.unpack]
  rfl

/-- Every whole number of fifty-three bits and a sign is a double. -/
theorem exists_int {n : Int} (h : n.natAbs < 2 ^ 53) :
    ∃ x : Float, x.isNaN = false ∧ toEReal x = (n : ℝ) := by
  obtain ⟨k, rfl | rfl⟩ := n.eq_nat_or_neg
  · exact ⟨_, toEReal_signed false (by omega)⟩
  · refine ⟨_, (toEReal_signed true (n := k) (by omega)).1, ?_⟩
    rw [(toEReal_signed true (by omega)).2, Int.cast_neg]
    rfl

/-! ## The next whole number -/

section Next

variable {q t c y : Float} {v r : ℝ} {s : Sign}

theorem toEReal_unit : (1.0 : Float).isNaN = false ∧ toEReal 1.0 = (1 : ℝ) := by
  exact_mod_cast toEReal_literal (x := 1.0) (n := 1) (by decide +kernel) (by decide)

theorem IsInfinite.floor_add (h : IsInfinite s x) : IsInfinite s (floor x + 1.0) := by
  rw [floor, h.toIntegral_eq]
  exact h.add toEReal_unit.1 toEReal_unit.2

theorem IsInfinite.ceil_sub (h : IsInfinite s x) : IsInfinite s (ceil x - 1.0) := by
  rw [ceil, h.toIntegral_eq]
  exact h.sub toEReal_unit.1 toEReal_unit.2

theorem natAbs_floor_lt (h : |p| ≤ 2 ^ 52) : (⌊p⌋ + 1).natAbs < 2 ^ 53 := by
  obtain ⟨hge, hle⟩ := abs_le.1 h
  have hlow : ((-2 ^ 52 : Int) : ℝ) ≤ p := by exact_mod_cast hge
  have hhigh : (⌊p⌋ : ℝ) ≤ (2 ^ 52 : Int) := by exact_mod_cast (Int.floor_le p).trans hle
  have hlow' := Int.le_floor.2 hlow
  have hhigh' := Int.cast_le.1 hhigh
  omega

/-- One more than the whole part is above a number that is so small that whole numbers near it are
doubles. -/
theorem Rounds.lt_of_floor {σ : ℝ} (h : Rounds (⌊σ⌋ + 1) x) (hle : p ≤ σ) (hsmall : |p| ≤ 2 ^ 52) :
    (p : EReal) < toEReal x := by
  have hlt := Int.lt_floor_add_one p
  have hfloor := Int.floor_le_floor hle
  obtain ⟨y, hy, hn⟩ := exists_int (natAbs_floor_lt hsmall)
  refine lt_of_lt_of_le ?_ (h.ge y hy ?_)
  · rw [hn]
    exact EReal.coe_lt_coe (by exact_mod_cast hlt)
  · rw [hn]
    exact EReal.coe_le_coe (by exact_mod_cast (by omega : ⌊p⌋ + 1 ≤ ⌊σ⌋ + 1))

theorem Rounds.lt_of_ceil {σ : ℝ} (h : Rounds (⌈σ⌉ - 1) x) (hle : σ ≤ p) (hsmall : |p| ≤ 2 ^ 52) :
    toEReal x < (p : EReal) := by
  obtain ⟨y, hy, hopposite⟩ := exists_neg h.isNaN
  have hneg : Rounds (⌊-σ⌋ + 1) y := by
    have hnumber : (⌊-σ⌋ + 1 : ℝ) = -(⌈σ⌉ - 1) := by
      rw [Int.floor_neg]
      push_cast
      ring
    rw [hnumber]
    exact h.neg hy hopposite
  have hlt := hneg.lt_of_floor (neg_le_neg hle) (by rwa [abs_neg])
  rw [hopposite, EReal.coe_neg] at hlt
  exact EReal.neg_lt_neg_iff.1 hlt

/-- **A step up from a number counts more than the number,** also if something was added to it
before. -/
theorem lt_floor_add (hq : q.isNaN = false) (hp : toEReal q = p) (hsmall : |p| ≤ 2 ^ 52)
    (ht : t.isNaN = false) (hpos : 0 ≤ toEReal t) :
    (floor (q + t) + 1.0).isNaN = false ∧ toEReal q < toEReal (floor (q + t) + 1.0) := by
  have hinfinite (h : IsInfinite .positive (q + t)) :
      (floor (q + t) + 1.0).isNaN = false ∧ toEReal q < toEReal (floor (q + t) + 1.0) := by
    rw [h.floor_add.2, hp]
    exact ⟨h.floor_add.1, EReal.coe_lt_top p⟩
  obtain ⟨τ, hτ⟩ | ⟨s, hs⟩ := exists_real_or_infinite ht
  · have hadd := rounds_add hq hp ht hτ
    have hle : (p : EReal) ≤ toEReal (q + t) := by
      refine hp ▸ hadd.ge q hq (hp.trans_le (EReal.coe_le_coe ?_))
      exact le_add_of_nonneg_right (EReal.coe_nonneg.1 (hτ ▸ hpos))
    obtain ⟨σ, hσ⟩ | ⟨s, hs⟩ := exists_real_or_infinite hadd.isNaN
    · obtain ⟨hwhole, hvalue⟩ := toEReal_floor hadd.isNaN hσ
      have hnext := rounds_add hwhole hvalue toEReal_unit.1 toEReal_unit.2
      rw [hp]
      exact ⟨hnext.isNaN, hnext.lt_of_floor (EReal.coe_le_coe_iff.1 (hσ ▸ hle)) hsmall⟩
    · cases s
      · exact absurd (hle.trans_eq hs.2) (not_le.2 (EReal.bot_lt_coe p))
      · exact hinfinite hs
  · cases s
    · exact absurd (hpos.trans_eq hs.2) (not_le.2 EReal.bot_lt_zero)
    · exact hinfinite (hs.add_left hq hp)

theorem ceil_sub_lt (hq : q.isNaN = false) (hp : toEReal q = p) (hsmall : |p| ≤ 2 ^ 52)
    (ht : t.isNaN = false) (hpos : 0 ≤ toEReal t) :
    (ceil (q - t) - 1.0).isNaN = false ∧ toEReal (ceil (q - t) - 1.0) < toEReal q := by
  have hinfinite (h : IsInfinite .negative (q - t)) :
      (ceil (q - t) - 1.0).isNaN = false ∧ toEReal (ceil (q - t) - 1.0) < toEReal q := by
    rw [h.ceil_sub.2, hp]
    exact ⟨h.ceil_sub.1, EReal.bot_lt_coe p⟩
  obtain ⟨τ, hτ⟩ | ⟨s, hs⟩ := exists_real_or_infinite ht
  · have hsub := rounds_sub hq hp ht hτ
    have hle : toEReal (q - t) ≤ p := by
      refine hp ▸ hsub.le q hq (ge_of_eq hp |>.trans' (EReal.coe_le_coe ?_))
      exact sub_le_self p (EReal.coe_nonneg.1 (hτ ▸ hpos))
    obtain ⟨σ, hσ⟩ | ⟨s, hs⟩ := exists_real_or_infinite hsub.isNaN
    · obtain ⟨hwhole, hvalue⟩ := toEReal_ceil hsub.isNaN hσ
      have hnext := rounds_sub hwhole hvalue toEReal_unit.1 toEReal_unit.2
      rw [hp]
      exact ⟨hnext.isNaN, hnext.lt_of_ceil (EReal.coe_le_coe_iff.1 (hσ ▸ hle)) hsmall⟩
    · cases s
      · exact hinfinite hs
      · exact absurd (hs.2.ge.trans hle) (not_le.2 (EReal.coe_lt_top p))
  · cases s
    · exact absurd (hpos.trans_eq hs.2) (not_le.2 EReal.bot_lt_zero)
    · exact hinfinite (hs.sub_left hq hp)

/-- **A multiple that counts more than a quotient is not below the dividend.** -/
theorem le_mul_of_div_lt (hx : x.isNaN = false) (hv : toEReal x = v) (hy : y.isNaN = false)
    (hr : toEReal y = r) (hpos : 0 < r) (hc : c.isNaN = false) (hlt : toEReal (x / y) < toEReal c) :
    toEReal x ≤ toEReal (c * y) := by
  have hdiv := rounds_div hx hv hy hr hpos.ne'
  obtain ⟨γ, hγ⟩ | ⟨s, hs⟩ := exists_real_or_infinite hc
  · have hle : v / r ≤ γ := by
      refine le_of_not_gt fun hgt => hlt.not_ge (hdiv.ge c hc ?_)
      rw [hγ]
      exact EReal.coe_le_coe hgt.le
    refine (rounds_mul hc hγ hy hr).ge x hx ?_
    rw [hv]
    exact EReal.coe_le_coe ((div_le_iff₀ hpos).1 hle)
  · cases s
    · exact absurd (hlt.trans_eq hs.2) not_lt_bot
    · exact (hs.mul (hr ▸ EReal.coe_pos.2 hpos)).2 ▸ le_top

theorem mul_le_of_lt_div (hx : x.isNaN = false) (hv : toEReal x = v) (hy : y.isNaN = false)
    (hr : toEReal y = r) (hpos : 0 < r) (hc : c.isNaN = false) (hlt : toEReal c < toEReal (x / y)) :
    toEReal (c * y) ≤ toEReal x := by
  have hdiv := rounds_div hx hv hy hr hpos.ne'
  obtain ⟨γ, hγ⟩ | ⟨s, hs⟩ := exists_real_or_infinite hc
  · have hle : γ ≤ v / r := by
      refine le_of_not_gt fun hgt => hlt.not_ge (hdiv.le c hc ?_)
      rw [hγ]
      exact EReal.coe_le_coe hgt.le
    refine (rounds_mul hc hγ hy hr).le x hx ?_
    rw [hv]
    exact EReal.coe_le_coe ((le_div_iff₀ hpos).1 hle)
  · cases s
    · exact (hs.mul (hr ▸ EReal.coe_pos.2 hpos)).2 ▸ bot_le
    · exact absurd (hs.2.symm.trans_lt hlt) not_top_lt

end Next

end MachinePanel.Binary64
