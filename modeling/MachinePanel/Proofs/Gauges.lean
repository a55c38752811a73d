/-
What a bar and a meter show of their value. Both move the part of the range that lies below the
value to their stops, and that keeps what they show between the stops whenever there is such a
part (`within_clamp`). But the part is a quotient of two differences. It is NaN if the value is, and
also if both differences are beyond all doubles, be it that they overflow or that a bound is an
infinity; and NaN is not moved anywhere (`gauge_isWithin_iff`).
-/
import MachinePanel.Proofs.Dials
import MachinePanel.Proofs.Followers

namespace MachinePanel

namespace Binary64

open Float.Model Float.Model.UnpackedFloat

variable {x y z low high : Float} {p q : ℝ} {s : Sign}

/-! ## Finite and infinite doubles -/

theorem isFinite_of_real (hx : x.isNaN = false) (hp : toEReal x = p) : x.isFinite = true := by
  change x.toModel.unpack.isFinite = true
  obtain ⟨s, hs, -⟩ | ⟨s, m, e, hm, hs, -⟩ := unpack_cases hx hp <;> rw [hs] <;> rfl

theorem IsInfinite.isFinite (h : IsInfinite s x) : x.isFinite = false := by
  change x.toModel.unpack.isFinite = false
  rw [h.unpack]
  rfl

/-- An infinity less the other one stays as it is. -/
theorem IsInfinite.sub_opposite (hx : IsInfinite .positive x) (hy : IsInfinite .negative y) :
    IsInfinite .positive (x - y) := by
  refine isInfinite_packed (u := UnpackedFloat.sub .binary64 _ _) ?_
  rw [hx.unpack, hy.unpack]
  rfl

theorem IsInfinite.pos (h : IsInfinite .positive x) : 0 < toEReal x :=
  h.2 ▸ EReal.zero_lt_top

/-- Real numbers that are doubles are multiples of the least double above zero. -/
theorem exists_multiple (hx : x.isNaN = false) (hp : toEReal x = p) :
    ∃ k : ℤ, p = k * 2 ^ (-1074 : ℤ) := by
  obtain ⟨-, -, rfl⟩ | ⟨s, m, e, -, -, hcanonical, rfl⟩ := unpack_cases hx hp
  · exact ⟨0, by simp⟩
  · obtain ⟨d, rfl⟩ := Int.exists_add_of_le hcanonical.lowest_le
    have hm : (m * 2 ^ (-1074 + d : ℤ) : ℝ) = (m * 2 ^ d : ℕ) * 2 ^ (-1074 : ℤ) := by
      rw [add_comm, zpow_add₀ two_ne_zero, zpow_natCast]
      push_cast
      ring
    rw [hm]
    cases s with
    | positive => exact ⟨(m * 2 ^ d : ℕ), by rw [Int.cast_natCast]; rfl⟩
    | negative => exact ⟨-(m * 2 ^ d : ℕ), by rw [Int.cast_neg, Int.cast_natCast, neg_mul]; rfl⟩

theorem exists_leastAboveZero :
    ∃ x : Float, x.isNaN = false ∧ toEReal x = (2 ^ (-1074 : ℤ) : ℝ) := by
  have hcanonical : IsCanonical (.finite .positive 1 (-1074) Nat.one_pos) :=
    ⟨by decide, by decide, by decide, .inr rfl⟩
  refine ⟨packed (.finite .positive 1 (-1074) Nat.one_pos), isNaN_packed hcanonical, ?_⟩
  rw [toEReal_packed hcanonical, unpackedToEReal, Nat.cast_one, one_mul]

/-- Different doubles have a difference: it is not lost in rounding. -/
theorem Rounds.pos_of_sub (hx : x.isNaN = false) (hp : toEReal x = p) (hy : y.isNaN = false)
    (hq : toEReal y = q) (hlt : p < q) (h : Rounds (q - p) z) : 0 < toEReal z := by
  obtain ⟨k, rfl⟩ := exists_multiple hx hp
  obtain ⟨l, rfl⟩ := exists_multiple hy hq
  obtain ⟨least, hleast, hvalue⟩ := exists_leastAboveZero
  have hpow : (0 : ℝ) < 2 ^ (-1074 : ℤ) := by positivity
  have hkl : (k + 1 : ℝ) ≤ l := by
    exact_mod_cast Int.add_one_le_iff.2 (Int.cast_lt.1 (lt_of_mul_lt_mul_right hlt hpow.le))
  have hle : (2 ^ (-1074 : ℤ) : ℝ) ≤ l * 2 ^ (-1074 : ℤ) - k * 2 ^ (-1074 : ℤ) := by
    rw [← sub_mul]
    exact le_mul_of_one_le_left hpow.le (by linarith)
  calc (0 : EReal) < (2 ^ (-1074 : ℤ) : ℝ) := EReal.coe_pos.2 hpow
    _ = toEReal least := hvalue.symm
    _ ≤ toEReal z := h.ge least hleast (hvalue.trans_le (EReal.coe_le_coe hle))

/-! ## The length of a range -/

/-- The length of a range is above zero, and beyond all doubles if the lower bound is. -/
theorem length_cases (h : low < high) :
    (∃ p : ℝ, toEReal low = p) ∧ (high - low).isNaN = false ∧ 0 < toEReal (high - low) ∨
      IsInfinite .positive (high - low) := by
  obtain ⟨hlow, hhigh, hlt⟩ := lt_iff.1 h
  obtain ⟨p, hp⟩ | ⟨s, hs⟩ := exists_real_or_infinite hlow
  · obtain ⟨q, hq⟩ | ⟨s, hs⟩ := exists_real_or_infinite hhigh
    · rw [hp, hq] at hlt
      have hrounds := rounds_sub hhigh hq hlow hp
      exact .inl ⟨⟨p, hp⟩, hrounds.isNaN,
        hrounds.pos_of_sub hlow hp hhigh hq (EReal.coe_lt_coe_iff.1 hlt)⟩
    · cases s with
      | positive => exact .inr (hs.sub hlow hp)
      | negative =>
        rw [hs.2] at hlt
        exact absurd hlt not_lt_bot
  · cases s with
    | positive =>
      rw [hs.2] at hlt
      exact absurd hlt not_top_lt
    | negative =>
      obtain ⟨q, hq⟩ | ⟨s', hs'⟩ := exists_real_or_infinite hhigh
      · exact .inr (hs.sub_left hhigh hq)
      · cases s' with
        | positive => exact .inr (hs'.sub_opposite hs)
        | negative =>
          rw [hs.2, hs'.2] at hlt
          exact absurd hlt (lt_irrefl _)

/-! ## Quotients that are NaN -/

theorem isNaN_div (hx : x.isNaN = true) : (x / y).isNaN = true := by
  change (Float.Model.pack (UnpackedFloat.div _ x.toModel.unpack _)).isNaN = true
  rw [unpack_of_isNaN hx]
  exact isNaN_pack

/-- **A quotient by a number above zero is NaN if the dividend is, or if both are infinite.** -/
theorem isNaN_div_iff (hy : y.isNaN = false) (hpos : 0 < toEReal y) :
    (x / y).isNaN = false ↔ x.isNaN = false ∧ (x.isFinite = true ∨ y.isFinite = true) := by
  cases hx : x.isNaN with
  | true =>
    rw [isNaN_div hx]
    exact iff_of_false nofun fun h => nomatch h.1
  | false =>
    simp only [true_and]
    obtain ⟨q, hq⟩ | ⟨s', hs'⟩ := exists_real_or_infinite hy
    · refine iff_of_true ?_ (.inr (isFinite_of_real hy hq))
      obtain ⟨p, hp⟩ | ⟨s, hs⟩ := exists_real_or_infinite hx
      · exact (rounds_div hx hp hy hq (EReal.coe_pos.1 (hq ▸ hpos)).ne').isNaN
      · exact (hs.div hpos hq).1
    · obtain ⟨p, hp⟩ | ⟨s, hs⟩ := exists_real_or_infinite hx
      · refine iff_of_true ?_ (.inl (isFinite_of_real hx hp))
        change (packed (UnpackedFloat.div .binary64 x.toModel.unpack y.toModel.unpack)).isNaN = _
        rw [hs'.unpack]
        obtain ⟨s, hs, -⟩ | ⟨s, m, e, hm, hs, -⟩ := unpack_cases hx hp <;> rw [hs] <;>
          exact isNaN_packed (u := .zero _) trivial
      · have hnan : (x / y).isNaN = true := by
          change (packed (UnpackedFloat.div .binary64 x.toModel.unpack _)).isNaN = _
          rw [hs.unpack, hs'.unpack]
          exact isNaN_pack
        rw [hnan, hs.isFinite, hs'.isFinite]
        exact iff_of_false nofun nofun

/-- The part of the range from `low` to `high` that lies below `x`, be it in the range or not. -/
def fraction (low high x : Float) : Float :=
  (x - low) / (high - low)

/-- The number lies at a finite distance from the lower bound, or the bounds do from each other. -/
def Measurable (low high x : Float) : Prop :=
  x.isNaN = false ∧ ((x - low).isFinite = true ∨ (high - low).isFinite = true)

instance : Decidable (Measurable low high x) := by
  unfold Measurable
  infer_instance

theorem isNaN_of_isNaN_sub (h : (x - y).isNaN = false) : x.isNaN = false := by
  cases hx : x.isNaN with
  | true =>
    rw [isNaN_sub hx] at h
    cases h
  | false => rfl

/-- **The part is a number for these numbers, and NaN for all other doubles.** -/
theorem isNaN_fraction_iff (h : low < high) :
    (fraction low high x).isNaN = false ↔ Measurable low high x := by
  unfold fraction Measurable
  obtain ⟨⟨p, hp⟩, hnan, hpos⟩ | hinfinite := length_cases h
  · rw [isNaN_div_iff hnan hpos]
    refine and_congr_left' ⟨isNaN_of_isNaN_sub, fun hx => ?_⟩
    have hlow := (lt_iff.1 h).1
    obtain ⟨q, hq⟩ | ⟨s, hs⟩ := exists_real_or_infinite hx
    · exact (rounds_sub hx hq hlow hp).isNaN
    · exact (hs.sub hlow hp).1
  · rw [isNaN_div_iff hinfinite.1 hinfinite.pos, hinfinite.isFinite]
    refine ⟨fun ⟨hnumber, hfinite⟩ => ⟨isNaN_of_isNaN_sub hnumber, hfinite⟩, fun ⟨_, hfinite⟩ =>
      ⟨?_, hfinite⟩⟩
    obtain ⟨v, hv, -⟩ := real_of_isFinite (hfinite.resolve_right nofun)
    exact hv

theorem isNaN_mul (hx : x.isNaN = true) : (x * y).isNaN = true := by
  change (Float.Model.pack (UnpackedFloat.mul _ x.toModel.unpack _)).isNaN = true
  rw [unpack_of_isNaN hx]
  exact isNaN_pack

theorem isNaN_add_right (hy : y.isNaN = true) : (x + y).isNaN = true := by
  change (Float.Model.pack (UnpackedFloat.add _ x.toModel.unpack y.toModel.unpack)).isNaN = true
  rw [unpack_of_isNaN hy]
  cases x.toModel.unpack <;> exact isNaN_pack

/-- To stretch and to move a double by real numbers does not make it NaN. -/
theorem isNaN_add_mul (hx : x.isNaN = false) (hp : toEReal x = p) (hy : y.isNaN = false)
    (hq : toEReal y = q) (hpos : 0 < q) : (x + z * y).isNaN = z.isNaN := by
  cases hz : z.isNaN with
  | true => exact isNaN_add_right (isNaN_mul hz)
  | false =>
    have hproduct : (z * y).isNaN = false := by
      obtain ⟨r, hr⟩ | ⟨s, hs⟩ := exists_real_or_infinite hz
      · exact (rounds_mul hz hr hy hq).isNaN
      · exact (hs.mul (hq ▸ EReal.coe_pos.2 hpos)).1
    obtain ⟨r, hr⟩ | ⟨s, hs⟩ := exists_real_or_infinite hproduct
    · exact (rounds_add hx hp hproduct hr).isNaN
    · exact (hs.add_left hx hp).1

/-- What is moved within the stops lies there unless it is NaN, and then stays NaN. -/
theorem within_clamp_iff (h : low < high) :
    (Within low high (clamp low high x) ↔ x.isNaN = false) ∧
      (¬ Within low high (clamp low high x) → (clamp low high x).isNaN = true) := by
  cases hx : x.isNaN with
  | true =>
    rw [clamp_of_isNaN hx]
    refine ⟨iff_of_false (fun hwithin => ?_) nofun, fun _ => hx⟩
    have hnan := hwithin.isNaN
    rw [hx] at hnan
    cases hnan
  | false =>
    have hwithin := within_clamp h hx
    exact ⟨iff_of_true hwithin rfl, fun hnot => absurd hwithin hnot⟩

end Binary64

open Binary64

/-! ## Bars and meters -/

/-- Bounds that are accepted are in order. -/
theorem Design.lt_of_bounds {props : Props} {low high : Float}
    {new : Float × Float → Except ValueError Design} {design : Design}
    (h : (bounds props low high >>= new) = .ok design) :
    props.min.getD low < props.max.getD high ∧
      new (props.min.getD low, props.max.getD high) = .ok design := by
  obtain ⟨⟨min, max⟩, hbounds, hnew⟩ := Element.exists_of_bind_ok h
  obtain ⟨⟨⟩, hcheck, hbounds⟩ := Element.exists_of_bind_ok hbounds
  cases hbounds
  exact ⟨Range.lt_of_checkRange hcheck, hnew⟩

/-- What a bar or a meter shows. -/
def Element.shown? : Element → Option Float
  | bar b => some b.fill
  | meter m => some m.angle
  | _ => none

namespace Bar

/-- The bar when it has read a value. -/
def enter (b : Bar) (v : Value) : Bar :=
  if same v.asFloat b.value then b
  else { b with value := v.asFloat, text := valueText v.asFloat }

theorem value_enter (b : Bar) (v : Value) : (b.enter v).value = v.asFloat := by
  unfold enter
  split
  · next hsame => exact (Float.toBits_inj.1 (beq_iff_eq.1 hsame)).symm
  · rfl

theorem fixed_enter (b : Bar) (v : Value) :
    (b.enter v).pin = b.pin ∧ (b.enter v).min = b.min ∧ (b.enter v).max = b.max := by
  unfold enter
  split <;> exact ⟨rfl, rfl, rfl⟩

theorem update_follows (b : Bar) (view : PinView) :
    (b.update view).element = (view.value? b.pin).elim b b.enter ∧
      ((b.update view).error = none ↔ (view.value? b.pin).isSome) := by
  refine view.reading_eq b.pin b fun v view' => ?_
  simp only [enter]
  split <;> exact ⟨rfl, rfl⟩

theorem followers : Followers Element.bar Bar.pin enter where
  act _ _ := rfl
  update b _ view := congrArg Element.bar (b.update_follows view).1
  error b _ view := (b.update_follows view).2
  pin_enter b v := (b.fixed_enter v).1

theorem within_fill_iff (b : Bar) (h : b.min < b.max) :
    (Within 0.0 1.0 b.fill ↔ Measurable b.min b.max b.value) ∧
      (¬ Within 0.0 1.0 b.fill → b.fill.isNaN = true) := by
  have hstops : (0.0 : Float) < 1.0 := by decide +kernel
  obtain ⟨hwithin, hnan⟩ := within_clamp_iff (x := fraction b.min b.max b.value) hstops
  exact ⟨hwithin.trans (isNaN_fraction_iff h), hnan⟩

/-- The fill after several uses goes by the last value that they have read. -/
theorem shown_useAll (b : Bar) (h : b.min < b.max) (uses : List Use) :
    let value := (followedValues b.pin uses).getLast?.elim b.value Value.asFloat
    ∃ shown, ((Element.bar b).useAll uses).shown? = some shown ∧
      (Within 0.0 1.0 shown ↔ Measurable b.min b.max value) ∧
      (¬ Within 0.0 1.0 shown → shown.isNaN = true) := by
  let b' := (followedValues b.pin uses).foldl enter b
  have hmin : b'.min = b.min := foldl_fixed enter _ (fun b v => (b.fixed_enter v).2.1) _ b
  have hmax : b'.max = b.max := foldl_fixed enter _ (fun b v => (b.fixed_enter v).2.2) _ b
  have hvalue := foldl_last enter Bar.value value_enter (followedValues b.pin uses) b
  have hfill := b'.within_fill_iff (by rw [hmin, hmax]; exact h)
  rw [hmin, hmax, hvalue] at hfill
  exact ⟨b'.fill, congrArg Element.shown? (followers.useAll uses b), hfill⟩

/-- A bar that has been made stands at zero between the bounds of its properties. -/
theorem eq_of_build {b : Binding} {props : Props} {built : Nanos} {e : Element}
    (h : (b.build "bar" props built).1 = .ok e) :
    let min := props.min.getD 0.0
    let max := props.max.getD 100.0
    min < max ∧ e = .bar (.new min max (b.takeName props (some ⟨"bar", ""⟩)).1) := by
  change (b.build Tag.bar.name props built).1 = .ok e at h
  obtain ⟨design, hdesign, rfl⟩ := Binding.exists_design_of_build h
  obtain ⟨hlt, hnew⟩ := Design.lt_of_bounds hdesign
  cases hnew
  exact ⟨hlt, rfl⟩

end Bar

namespace Meter

/-- The meter when it has read a value. -/
def enter (m : Meter) (v : Value) : Meter :=
  { m with value := v.asFloat }

theorem update_follows (m : Meter) (view : PinView) :
    (m.update view).element = (view.value? m.pin).elim m m.enter ∧
      ((m.update view).error = none ↔ (view.value? m.pin).isSome) :=
  view.reading_eq m.pin m fun _ _ => ⟨rfl, rfl⟩

theorem followers : Followers Element.meter Meter.pin enter where
  act _ _ := rfl
  update m _ view := congrArg Element.meter (m.update_follows view).1
  error m _ view := (m.update_follows view).2
  pin_enter _ _ := rfl

theorem within_angle_iff (m : Meter) (h : m.min < m.max) :
    (Within lowStop highStop m.angle ↔ Measurable m.min m.max m.value) ∧
      (¬ Within lowStop highStop m.angle → m.angle.isNaN = true) := by
  have hstops : lowStop < highStop := by decide +kernel
  obtain ⟨p, hlow, hp⟩ := real_of_isFinite (x := lowStop) (by decide +kernel)
  obtain ⟨q, hsweep, hq⟩ := real_of_isFinite (x := highStop - lowStop) (by decide +kernel)
  have hpos : 0 < q := by
    have hlt : (0.0 : Float) < highStop - lowStop := by decide +kernel
    obtain ⟨-, -, hlt⟩ := lt_iff.1 hlt
    rw [toEReal_zero.2, hq] at hlt
    exact EReal.coe_lt_coe_iff.1 hlt
  obtain ⟨hwithin, hnan⟩ := within_clamp_iff
    (x := lowStop + fraction m.min m.max m.value * (highStop - lowStop)) hstops
  rw [isNaN_add_mul hlow hp hsweep hq hpos] at hwithin
  exact ⟨hwithin.trans (isNaN_fraction_iff h), hnan⟩

/-- The angle after several uses goes by the last value that they have read. -/
theorem shown_useAll (m : Meter) (h : m.min < m.max) (uses : List Use) :
    let value := (followedValues m.pin uses).getLast?.elim m.value Value.asFloat
    ∃ shown, ((Element.meter m).useAll uses).shown? = some shown ∧
      (Within lowStop highStop shown ↔ Measurable m.min m.max value) ∧
      (¬ Within lowStop highStop shown → shown.isNaN = true) := by
  let m' := (followedValues m.pin uses).foldl enter m
  have hmin : m'.min = m.min := foldl_fixed enter _ (fun _ _ => rfl) _ m
  have hmax : m'.max = m.max := foldl_fixed enter _ (fun _ _ => rfl) _ m
  have hvalue := foldl_last enter Meter.value (fun _ _ => rfl) (followedValues m.pin uses) m
  have hangle := m'.within_angle_iff (by rw [hmin, hmax]; exact h)
  rw [hmin, hmax, hvalue] at hangle
  exact ⟨m'.angle, congrArg Element.shown? (followers.useAll uses m), hangle⟩

/-- A meter that has been made stands at zero between the bounds of its properties. -/
theorem eq_of_build {b : Binding} {props : Props} {built : Nanos} {e : Element}
    (h : (b.build "meter" props built).1 = .ok e) :
    let min := props.min.getD 0.0
    let max := props.max.getD 100.0
    min < max ∧ e = .meter (.new min max (b.takeName props (some ⟨"meter", ".value"⟩)).1) := by
  change (b.build Tag.meter.name props built).1 = .ok e at h
  obtain ⟨design, hdesign, rfl⟩ := Binding.exists_design_of_build h
  obtain ⟨hlt, hnew⟩ := Design.lt_of_bounds hdesign
  cases hnew
  exact ⟨hlt, rfl⟩

end Meter

/-- A kind of gauge: how its pin is named, and the stops between which it moves. -/
structure Gauge where
  naming : Naming
  low : Float
  high : Float

/-- The gauge that is made for a tag. -/
def gauge? : Tag → Option Gauge
  | .bar => some ⟨⟨"bar", ""⟩, 0.0, 1.0⟩
  | .meter => some ⟨⟨"meter", ".value"⟩, Meter.lowStop, Meter.highStop⟩
  | _ => none

/-- **What a gauge shows lies between its stops if and only if** the value is at a finite distance
from the lower bound, or the bounds are from each other. Otherwise it shows NaN. The value is
the last one read, or zero before any is. -/
theorem gauge_isWithin_iff {b : Binding} {tag : Tag} {gauge : Gauge} {props : Props}
    {built : Nanos} {e : Element} (hgauge : gauge? tag = some gauge)
    (h : (b.build tag.name props built).1 = .ok e) (uses : List Use) :
    let pin : Handle := ⟨(b.takeName props (some gauge.naming)).1, .input, .float⟩
    let value := (followedValues pin uses).getLast?.elim 0.0 Value.asFloat
    let min := props.min.getD 0.0
    let max := props.max.getD 100.0
    min < max ∧ ∃ shown, (e.useAll uses).shown? = some shown ∧
      (Within gauge.low gauge.high shown ↔ Measurable min max value) ∧
      (¬ Within gauge.low gauge.high shown → shown.isNaN = true) := by
  intro pin value min max
  cases tag with
  | bar =>
    cases hgauge
    obtain ⟨hlt, rfl⟩ := Bar.eq_of_build h
    exact ⟨hlt, Bar.shown_useAll (.new min max pin.name) hlt uses⟩
  | meter =>
    cases hgauge
    obtain ⟨hlt, rfl⟩ := Meter.eq_of_build h
    exact ⟨hlt, Meter.shown_useAll (.new min max pin.name) hlt uses⟩
  | _ => cases hgauge

/-- The properties of a bar whose bounds are further apart than any two doubles can tell. -/
def farBounds : Props := { pinName := some "b", min := some (-1e308), max := some 1e308 }

/-- An update that reads a number under a pin. -/
def updateReading (pin : String) (x : Float) : Use :=
  .update 0 ⟨⟨[(pin, ⟨.input, .float x⟩)]⟩, []⟩

theorem exists_farBounds : ∃ e, (Binding.build ⟨{}, {}, []⟩ "bar" farBounds 0).1 = .ok e :=
  exists_of_isOk (by decide +kernel)

theorem gauge_isWithin_iff_far :
    ∃ e shown, (Binding.build ⟨{}, {}, []⟩ "bar" farBounds 0).1 = .ok e ∧
      (e.useAll [updateReading "b" 1e308, updateReading "b" 5e307]).shown? = some shown ∧
      Within 0.0 1.0 shown := by
  obtain ⟨e, hbuild⟩ := exists_farBounds
  have hgauge : gauge? .bar = some ⟨⟨"bar", ""⟩, 0.0, 1.0⟩ := rfl
  obtain ⟨-, shown, hshown, hwithin, -⟩ := gauge_isWithin_iff hgauge hbuild
    [updateReading "b" 1e308, updateReading "b" 5e307]
  have hmeasurable : Measurable (-1e308) 1e308 5e307 := by decide +kernel
  exact ⟨e, shown, hbuild, hshown, hwithin.2 hmeasurable⟩

/-- It is not so that what a gauge shows always lies between its stops: it may be NaN while the
bounds and the value are finite. -/
theorem gauge_not_within :
    ¬ ∀ (b : Binding) (tag : Tag) (gauge : Gauge) (props : Props) (built : Nanos) (e : Element),
      gauge? tag = some gauge → (b.build tag.name props built).1 = .ok e →
        ∀ uses : List Use, ∃ shown, (e.useAll uses).shown? = some shown ∧
          Within gauge.low gauge.high shown := by
  intro h
  obtain ⟨e, hbuild⟩ := exists_farBounds
  obtain ⟨hlt, rfl⟩ := Bar.eq_of_build hbuild
  obtain ⟨shown, hshown, hwithin⟩ := h ⟨{}, {}, []⟩ .bar ⟨⟨"bar", ""⟩, 0.0, 1.0⟩ farBounds 0 _ rfl
    hbuild [updateReading "b" 1e308]
  obtain ⟨shown', hshown', hiff, -⟩ := Bar.shown_useAll (.new (-1e308) 1e308 "b") hlt
    [updateReading "b" 1e308]
  obtain rfl : shown' = shown := Option.some.inj (hshown'.symm.trans hshown)
  have hmeasurable : ¬ Measurable (-1e308) 1e308 1e308 := by decide +kernel
  exact hmeasurable (hiff.1 hwithin)

end MachinePanel
