/-
The bounds of a dial. A step up is cut off at the upper bound and a step down at the lower one, and
neither looks at the other bound; the value that a dial starts with, and goes back to, is brought
to a multiple of the resolution, and cut off at neither (`Overruns`). So a dial may start beyond its
bounds. A dial that starts within them stays there as long as it is reset to values within them
only, and turned only where doubles tell one number of steps from the next (`dial_isWithin`).
-/
import MachinePanel.Proofs.Ranges
import MachinePanel.Proofs.WholeNumbers

namespace MachinePanel

namespace Binary64

variable {x y : Float} {q : ℝ}

/-! ## Doubles from zero on -/

theorem toEReal_zero : (0.0 : Float).isNaN = false ∧ toEReal 0.0 = (0 : ℝ) := by
  exact_mod_cast toEReal_literal (x := 0.0) (n := 0) (by decide +kernel) (by decide)

theorem toEReal_ten : (10.0 : Float).isNaN = false ∧ toEReal 10.0 = (10 : ℝ) := by
  exact_mod_cast toEReal_literal (x := 10.0) (n := 10) (by decide +kernel) (by decide)

theorem zero_le_iff : 0.0 ≤ x ↔ x.isNaN = false ∧ 0 ≤ toEReal x := by
  rw [le_iff, toEReal_zero.2]
  exact and_iff_right toEReal_zero.1

theorem Rounds.zero_le (h : Rounds q x) (hq : 0 ≤ q) : 0.0 ≤ x := by
  refine zero_le_iff.2 ⟨h.isNaN, ?_⟩
  have hge := h.ge 0.0 toEReal_zero.1 (toEReal_zero.2.trans_le (EReal.coe_le_coe hq))
  rwa [toEReal_zero.2] at hge

theorem IsInfinite.zero_le (h : IsInfinite .positive x) : 0.0 ≤ x :=
  zero_le_iff.2 ⟨h.1, h.2 ▸ le_top⟩

/-- A double from zero on is a real number from zero on, or infinity. -/
theorem cases_of_zero_le (h : 0.0 ≤ x) :
    (∃ p : ℝ, 0 ≤ p ∧ x.isNaN = false ∧ toEReal x = p) ∨ IsInfinite .positive x := by
  obtain ⟨hx, hpos⟩ := zero_le_iff.1 h
  obtain ⟨p, hp⟩ | ⟨s, hs⟩ := exists_real_or_infinite hx
  · exact .inl ⟨p, EReal.coe_nonneg.1 (hp ▸ hpos), hx, hp⟩
  · cases s
    · exact absurd (hpos.trans_eq hs.2) (not_le.2 EReal.bot_lt_zero)
    · exact .inr hs

theorem zero_le_mul (h : 0.0 ≤ x) (hy : y.isNaN = false) (hq : toEReal y = q) (hpos : 0 < q) :
    0.0 ≤ x * y := by
  obtain ⟨p, hp, hx, hvalue⟩ | hinfinite := cases_of_zero_le h
  · exact (rounds_mul hx hvalue hy hq).zero_le (mul_nonneg hp hpos.le)
  · exact (hinfinite.mul (hq ▸ EReal.coe_pos.2 hpos)).zero_le

theorem zero_le_div (h : 0.0 ≤ x) (hy : y.isNaN = false) (hq : toEReal y = q) (hpos : 0 < q) :
    0.0 ≤ x / y := by
  obtain ⟨p, hp, hx, hvalue⟩ | hinfinite := cases_of_zero_le h
  · exact (rounds_div hx hvalue hy hq hpos.ne').zero_le (div_nonneg hp hpos.le)
  · exact (hinfinite.div (hq ▸ EReal.coe_pos.2 hpos) hq).zero_le

end Binary64

open Binary64

/-! ## Dials in use -/

namespace Dial

/-- The value lies within the bounds. -/
def IsWithin (d : Dial) : Prop :=
  Within d.min d.max d.value

/-- The count of steps that a step up goes to. -/
def countUp (d : Dial) : Float :=
  floor (d.value / d.resolution + d.resolution * slack) + 1.0

/-- The count of steps that a step down goes to. -/
def countDown (d : Dial) : Float :=
  ceil (d.value / d.resolution - d.resolution * slack) - 1.0

/-- The dial after a use. -/
def use (d : Dial) : Use → Dial
  | .act .up => d.up
  | .act .down => d.down
  | .act .finer => d.finer
  | .act .coarser => d.coarser
  | .act .resetResolution => d.resetResolution
  | .act .resetValue => d.resetValue
  | _ => d

/-- The dial after several uses. -/
def useAll (d : Dial) (uses : List Use) : Dial :=
  uses.foldl use d

end Dial

/-- A use that gives a dial its value. -/
def Use.Turns : Use → Prop
  | .act .up | .act .down | .act .resetValue => True
  | _ => False

namespace Dial

/-- A use gives the dial a value beyond a bound that it does not look at. -/
def Overruns (d : Dial) : Use → Prop
  | .act .up => d.countUp * d.resolution < d.min
  | .act .down => d.max < d.countDown * d.resolution
  | .act .resetValue => ¬ Within d.min d.max (snap d.initial d.resolution)
  | _ => False

/-- The number of steps up to which doubles tell a whole number from the next. -/
def countLimit : Float := 4503599627370496.0

/-- The value is few steps away from zero. -/
def IsNear (d : Dial) : Prop :=
  Within (-countLimit) countLimit (d.value / d.resolution)

/-- A use that leaves a value within the bounds there. -/
def IsSafe (d : Dial) : Use → Prop
  | .act .up | .act .down => d.IsNear
  | .act .resetValue => Within d.min d.max (snap d.initial d.resolution)
  | _ => True

instance (d : Dial) : Decidable d.IsWithin :=
  inferInstanceAs (Decidable (Within ..))

instance (d : Dial) : Decidable d.IsNear :=
  inferInstanceAs (Decidable (Within ..))

instance (d : Dial) (u : Use) : Decidable (d.IsSafe u) := by
  unfold IsSafe
  split <;> infer_instance

/-- Each use is safe at its time. -/
def AllSafe (d : Dial) : List Use → Prop
  | [] => True
  | use :: rest => d.IsSafe use ∧ (d.use use).AllSafe rest

instance decidableAllSafe (d : Dial) : (uses : List Use) → Decidable (d.AllSafe uses)
  | [] => inferInstanceAs (Decidable True)
  | u :: rest =>
    have := (d.use u).decidableAllSafe rest
    inferInstanceAs (Decidable (_ ∧ _))

/-- A dial of these bounds, whose steps are not negative. -/
structure Between (low high : Float) (d : Dial) : Prop where
  min_eq : d.min = low
  max_eq : d.max = high
  lt : low < high
  resolution : 0.0 ≤ d.resolution
  initialResolution : 0.0 ≤ d.initialResolution

variable {d : Dial} {low high : Float} {u : Use}

theorem Between.use (h : Between low high d) (u : Use) : Between low high (d.use u) := by
  have hten : (0 : ℝ) < 10 := by norm_num
  have hfiner := zero_le_div h.resolution toEReal_ten.1 toEReal_ten.2 hten
  have hcoarser := zero_le_mul h.resolution toEReal_ten.1 toEReal_ten.2 hten
  unfold Dial.use
  split
  · exact ⟨h.min_eq, h.max_eq, h.lt, h.resolution, h.initialResolution⟩
  · exact ⟨h.min_eq, h.max_eq, h.lt, h.resolution, h.initialResolution⟩
  · exact ⟨h.min_eq, h.max_eq, h.lt, hfiner, h.initialResolution⟩
  · exact ⟨h.min_eq, h.max_eq, h.lt, hcoarser, h.initialResolution⟩
  · exact ⟨h.min_eq, h.max_eq, h.lt, h.initialResolution, h.initialResolution⟩
  · exact ⟨h.min_eq, h.max_eq, h.lt, h.resolution, h.initialResolution⟩
  · exact h

theorem Between.useAll (h : Between low high d) (uses : List Use) :
    Between low high (d.useAll uses) := by
  induction uses generalizing d with
  | nil => exact h
  | cons u rest ih => exact ih (h.use u)

/-- A use that does not turn the dial leaves its value. -/
theorem value_use (h : ¬ u.Turns) : (d.use u).value = d.value := by
  unfold Dial.use
  split <;> first | rfl | exact absurd trivial h

/-- A step up goes to the upper bound at most, and a step down to the lower one. -/
theorem Between.value_steps (h : Between low high d) :
    d.up.value ≤ high ∧ low ≤ d.down.value := by
  obtain ⟨rfl, rfl, hlt, -, -⟩ := h
  exact ⟨least_le (lt_iff.1 hlt).2.1, le_greatest (lt_iff.1 hlt).1⟩

/-- **A value that a use gives is within the bounds unless the use overruns them.** -/
theorem Between.isWithin_use_iff (h : Between low high d) (hturns : u.Turns) :
    (d.use u).IsWithin ↔ ¬ d.Overruns u := by
  have hlt : d.min < d.max := h.min_eq ▸ h.max_eq ▸ h.lt
  unfold Use.Turns at hturns
  split at hturns
  · exact within_least_iff hlt
  · exact within_greatest_iff hlt
  · exact Classical.not_not.symm
  · exact hturns.elim

/-! ## Few steps from zero -/

theorem slack_pos : ∃ σ : ℝ, 0 < σ ∧ slack.isNaN = false ∧ toEReal slack = σ := by
  obtain ⟨σ, hslack, hσ⟩ := real_of_isFinite (x := slack) (by decide +kernel)
  have hpos : 0.0 < slack := by decide +kernel
  have hlt := (lt_iff.1 hpos).2.2
  rw [toEReal_zero.2, hσ] at hlt
  exact ⟨σ, EReal.coe_lt_coe_iff.1 hlt, hslack, hσ⟩

theorem toEReal_countLimit :
    toEReal countLimit = (2 ^ 52 : ℝ) ∧ toEReal (-countLimit) = (-2 ^ 52 : ℝ) := by
  have hliteral : countLimit = signed false (2 ^ 52) := by decide +kernel
  have hopposite : -countLimit = signed true (2 ^ 52) := by decide +kernel
  have hpositive := (toEReal_signed false (n := 2 ^ 52) (by decide)).2
  have hnegative := (toEReal_signed true (n := 2 ^ 52) (by decide)).2
  rw [← hliteral] at hpositive
  rw [← hopposite] at hnegative
  change _ = (((2 ^ 52 : Nat) : ℝ) : EReal) at hpositive
  change _ = ((-(2 ^ 52 : Nat) : ℝ) : EReal) at hnegative
  rw [Nat.cast_pow, Nat.cast_ofNat] at hpositive hnegative
  exact ⟨hpositive, hnegative⟩

/-- A value near zero is a number of steps that doubles can count. -/
theorem IsNear.exists_real (h : d.IsNear) :
    ∃ p : ℝ, (d.value / d.resolution).isNaN = false ∧
      toEReal (d.value / d.resolution) = p ∧ |p| ≤ 2 ^ 52 := by
  obtain ⟨hlow, hhigh⟩ := h
  obtain ⟨-, hq, hlow⟩ := le_iff.1 hlow
  have hhigh := (le_iff.1 hhigh).2.2
  rw [toEReal_countLimit.2] at hlow
  rw [toEReal_countLimit.1] at hhigh
  obtain ⟨p, hp⟩ | ⟨s, hs⟩ := exists_real_or_infinite hq
  · rw [hp] at hlow hhigh
    refine ⟨p, hq, hp, abs_le.2 ⟨EReal.coe_le_coe_iff.1 hlow, EReal.coe_le_coe_iff.1 hhigh⟩⟩
  · cases s
    · exact absurd (hlow.trans_eq hs.2) (not_le.2 (EReal.bot_lt_coe _))
    · exact absurd (hs.2.ge.trans hhigh) (not_le.2 (EReal.coe_lt_top _))

/-- The resolution of a dial near zero is a positive number, or infinity. -/
theorem IsNear.cases_resolution (h : d.IsNear) (hpos : 0.0 ≤ d.resolution) :
    (∃ v : ℝ, d.value.isNaN = false ∧ toEReal d.value = v) ∧
      ((∃ r : ℝ, 0 < r ∧ d.resolution.isNaN = false ∧ toEReal d.resolution = r) ∨
        IsInfinite .positive d.resolution) := by
  obtain ⟨p, hq, hp, -⟩ := h.exists_real
  obtain ⟨hvalue, hzero⟩ := real_of_div hq hp
  refine ⟨hvalue, (cases_of_zero_le hpos).imp_left ?_⟩
  rintro ⟨r, hr, hnan, heq⟩
  refine ⟨r, lt_of_le_of_ne hr fun h => hzero ?_, hnan, heq⟩
  rw [heq, ← h]
  rfl

/-- **The multiple above a value near zero is not below it.** -/
theorem IsNear.le_countUp (h : d.IsNear) (hpos : 0.0 ≤ d.resolution) :
    toEReal d.value ≤ toEReal (d.countUp * d.resolution) := by
  obtain ⟨p, hq, hp, hsmall⟩ := h.exists_real
  obtain ⟨σ, hσ, hslack, hslackValue⟩ := slack_pos
  have ht := zero_le_iff.1 (zero_le_mul hpos hslack hslackValue hσ)
  obtain ⟨⟨v, hv, hvalue⟩, ⟨r, hr, hres, hresValue⟩ | hinfinite⟩ := h.cases_resolution hpos
  · obtain ⟨hcount, hlt⟩ := lt_floor_add hq hp hsmall ht.1 ht.2
    exact le_mul_of_div_lt hv hvalue hres hresValue hr hcount hlt
  · -- Steps without an end go to infinity.
    have hmore := (hinfinite.mul (hslackValue ▸ EReal.coe_pos.2 hσ)).add_left hq hp
    have hmultiple := hmore.floor_add.mul (EReal.zero_lt_top.trans_eq hinfinite.2.symm)
    exact hmultiple.2 ▸ le_top

theorem IsNear.countDown_le (h : d.IsNear) (hpos : 0.0 ≤ d.resolution) :
    toEReal (d.countDown * d.resolution) ≤ toEReal d.value := by
  obtain ⟨p, hq, hp, hsmall⟩ := h.exists_real
  obtain ⟨σ, hσ, hslack, hslackValue⟩ := slack_pos
  have ht := zero_le_iff.1 (zero_le_mul hpos hslack hslackValue hσ)
  obtain ⟨⟨v, hv, hvalue⟩, ⟨r, hr, hres, hresValue⟩ | hinfinite⟩ := h.cases_resolution hpos
  · obtain ⟨hcount, hlt⟩ := ceil_sub_lt hq hp hsmall ht.1 ht.2
    exact mul_le_of_lt_div hv hvalue hres hresValue hr hcount hlt
  · have hless := (hinfinite.mul (hslackValue ▸ EReal.coe_pos.2 hσ)).sub_left hq hp
    have hmultiple := hless.ceil_sub.mul (EReal.zero_lt_top.trans_eq hinfinite.2.symm)
    exact hmultiple.2 ▸ bot_le

/-- **A safe use overruns no bound.** -/
theorem Between.not_overruns (h : Between low high d) (hwithin : d.IsWithin) (hsafe : d.IsSafe u) :
    ¬ d.Overruns u := by
  have hlow := (le_iff.1 hwithin.1).2.2
  have hhigh := (le_iff.1 hwithin.2).2.2
  unfold Overruns
  split
  · intro hover
    exact ((lt_iff.1 hover).2.2.trans_le hlow).not_ge (IsNear.le_countUp hsafe h.resolution)
  · intro hover
    exact (hhigh.trans_lt (lt_iff.1 hover).2.2).not_ge (IsNear.countDown_le hsafe h.resolution)
  · exact Classical.not_not.2 hsafe
  · exact id

theorem Between.isWithin_use (h : Between low high d) (hwithin : d.IsWithin)
    (hsafe : d.IsSafe u) : (d.use u).IsWithin := by
  by_cases hturns : u.Turns
  · exact (h.isWithin_use_iff hturns).2 (h.not_overruns hwithin hsafe)
  · have hbetween := h.use u
    rw [IsWithin, hbetween.min_eq, hbetween.max_eq, value_use hturns, ← h.min_eq, ← h.max_eq]
    exact hwithin

theorem Between.isWithin_useAll (h : Between low high d) (hwithin : d.IsWithin) {uses : List Use}
    (hsafe : d.AllSafe uses) : (d.useAll uses).IsWithin := by
  induction uses generalizing d with
  | nil => exact hwithin
  | cons u rest ih => exact ih (h.use u) (h.isWithin_use hwithin hsafe.1) hsafe.2

/-! ## Dials of a panel -/

theorem use_dial (d : Dial) (u : Use) : (Element.dial d).use u = .dial (d.use u) := by
  cases u with
  | act action => cases action <;> rfl
  | update now view =>
    simp only [Element.use, Element.update, Refresh.map, Dial.update, PinView.writing]
    split <;> rfl

theorem useAll_dial (d : Dial) (uses : List Use) :
    (Element.dial d).useAll uses = .dial (d.useAll uses) := by
  induction uses generalizing d with
  | nil => rfl
  | cons u rest ih =>
    change ((Element.dial d).use u).useAll rest = _
    rw [use_dial]
    exact ih _

theorem pin_useAll (d : Dial) (uses : List Use) : (d.useAll uses).pin = d.pin := by
  induction uses generalizing d with
  | nil => rfl
  | cons u rest ih =>
    refine (ih _).trans ?_
    unfold Dial.use
    split <;> rfl

/-- An update that ends without an error has written the value. -/
theorem read_update {view : PinView} (hok : (d.update view).error = none) :
    (d.update view).view.store.read d.pin.name = .ok (.float d.value) := by
  obtain ⟨view', hgo, hread⟩ := PinView.read_of_writing hok
  rw [Dial.update, hgo]
  exact (hread _).trans (if_pos rfl)

/-- A resolution that passes the check is not negative. -/
theorem zero_le_of_checkResolution {step : Float} (h : checkResolution step = .ok ()) :
    0.0 ≤ step := by
  unfold checkResolution at h
  split at h
  · cases h
  · next hstep =>
    simp only [Bool.or_eq_true, decide_eq_true_eq, Bool.not_eq_true', not_or,
      Bool.not_eq_false] at hstep
    obtain ⟨p, hnan, hp⟩ := real_of_isFinite hstep.2
    refine zero_le_iff.2 ⟨hnan, le_of_not_ge fun hle => hstep.1 ?_⟩
    exact le_iff.2 ⟨hnan, toEReal_zero.1, hle.trans_eq toEReal_zero.2.symm⟩

/-- A dial that has been made has the bounds of its properties, and starts at a multiple of its
resolution. -/
theorem exists_between_of_build {b : Binding} {props : Props} {built : Nanos} {e : Element}
    (h : (b.build "dial" props built).1 = .ok e) :
    ∃ d, e = .dial d ∧ Between (props.min.getD (-1e20)) (props.max.getD 1e20) d ∧
      d.pin.name = (b.takeName props (some ⟨"dial", ".out"⟩)).1 ∧
      d.value = snap (props.initial.getD 0.0) (props.resolution.getD 0.1) := by
  change (b.build Tag.dial.name props built).1 = .ok e at h
  obtain ⟨design, hdesign, rfl⟩ := Binding.exists_design_of_build h
  obtain ⟨⟨min, max⟩, hbounds, hdesign⟩ := Element.exists_of_bind_ok hdesign
  obtain ⟨⟨⟩, hresolution, hdesign⟩ := Element.exists_of_bind_ok hdesign
  obtain ⟨detent, -, hdesign⟩ := Element.exists_of_bind_ok hdesign
  obtain ⟨⟨⟩, hcheck, hbounds⟩ := Element.exists_of_bind_ok hbounds
  cases hbounds
  cases hdesign
  have hpos := zero_le_of_checkResolution hresolution
  have hlt : props.min.getD (-1e20) < props.max.getD 1e20 := Range.lt_of_checkRange hcheck
  exact ⟨_, rfl, ⟨rfl, rfl, hlt, hpos, hpos⟩, rfl, rfl⟩

end Dial

/-- **A dial that starts within its bounds has a value within them after any uses** that step from
values few steps from zero only and reset to values within the bounds only. Whatever the uses, the
value that the next use gives is within the bounds if and only if this use does not overrun them; a
step up never goes above the upper bound, nor a step down below the lower one. An update that ends
without an error writes the value. -/
theorem dial_isWithin {b : Binding} {props : Props} {built : Nanos} {e : Element}
    (h : (b.build "dial" props built).1 = .ok e) (uses : List Use) :
    let name := (b.takeName props (some ⟨"dial", ".out"⟩)).1
    let e' := e.useAll uses
    ∃ start d : Dial, e = .dial start ∧ e' = .dial d ∧
      d.min = props.min.getD (-1e20) ∧ d.max = props.max.getD 1e20 ∧
      start.value = Dial.snap (props.initial.getD 0.0) (props.resolution.getD 0.1) ∧
      (start.IsWithin → start.AllSafe uses → d.IsWithin) ∧
      (∀ u : Use, u.Turns → ((d.use u).IsWithin ↔ ¬ d.Overruns u)) ∧
      (∀ u : Use, ¬ u.Turns → (d.use u).value = d.value) ∧
      d.up.value ≤ d.max ∧ d.min ≤ d.down.value ∧
      ∀ (now : Nanos) (view : PinView), (e'.update now view).error = none →
        (e'.update now view).view.store.read name = .ok (.float d.value) := by
  intro name e'
  obtain ⟨start, rfl, hstart, hname, hvalue⟩ := Dial.exists_between_of_build h
  have hd := hstart.useAll uses
  have he : e' = .dial (start.useAll uses) := start.useAll_dial uses
  refine ⟨start, start.useAll uses, rfl, he, hd.min_eq, hd.max_eq, hvalue,
    fun hwithin => hstart.isWithin_useAll hwithin, fun u => hd.isWithin_use_iff,
    fun u => Dial.value_use, ?_, ?_, fun now view hok => ?_⟩
  · exact hd.max_eq ▸ hd.value_steps.1
  · exact hd.min_eq ▸ hd.value_steps.2
  · rw [he] at hok ⊢
    have hread := Dial.read_update hok
    rwa [start.pin_useAll uses, hname] at hread

/-- A dial from five to ten. -/
def fiveToTen (initial : Option Float) : Props :=
  { pinName := some "d", min := some 5.0, max := some 10.0, initial }

/-- The first state of such a dial. -/
def Dial.fiveToTen (initial : Option Float) : Dial :=
  .new 5.0 10.0 0.1 (fullTurn / Float.ofNat 40) "d" (MachinePanel.fiveToTen initial)

theorem build_fiveToTen (initial : Option Float)
    (hok : (Binding.build ⟨{}, {}, []⟩ "dial" (fiveToTen initial) 0).1.isOk = true) :
    (Binding.build ⟨{}, {}, []⟩ "dial" (fiveToTen initial) 0).1 =
      .ok (.dial (.fiveToTen initial)) := by
  have hrange : checkRange 5.0 10.0 = .ok () := if_pos (by decide +kernel)
  have hresolution : checkResolution 0.1 = .ok () := if_neg (by decide +kernel)
  have hdesign : Design.of (fiveToTen initial) .dial = .ok (.single "dial" ".out" fun name =>
      .dial (.new 5.0 10.0 0.1 (fullTurn / Float.ofNat 40) name (fiveToTen initial))) := by
    simp only [Design.of, Design.dial, Design.bounds, fiveToTen, Option.getD_some,
      Option.getD_none, hrange, hresolution]
    rfl
  obtain ⟨e, h⟩ := exists_of_isOk hok
  rw [h]
  change (Binding.build _ Tag.dial.name _ _).1 = _ at h
  obtain ⟨design, hdesign', rfl⟩ := Binding.exists_design_of_build h
  cases hdesign.symm.trans hdesign'
  rfl

theorem dial_isWithin_steps :
    ∃ start d : Dial, (Binding.build ⟨{}, {}, []⟩ "dial" (fiveToTen (some 7.0)) 0).1 =
        .ok (.dial start) ∧
      (Element.dial start).useAll [.act .up, .act .coarser, .act .down] = .dial d ∧
      Binary64.Within 5.0 10.0 d.value := by
  have hbuild := build_fiveToTen (some 7.0) (by decide +kernel)
  obtain ⟨start, d, hstart, hd, hmin, hmax, -, hwithin, -⟩ :=
    dial_isWithin hbuild [.act .up, .act .coarser, .act .down]
  cases hstart
  have hvalue := hwithin (by decide +kernel) (by decide +kernel)
  rw [Dial.IsWithin, hmin, hmax] at hvalue
  exact ⟨_, d, hbuild, hd, hvalue⟩

/-- It is not so that the value is always within the bounds: a dial starts at zero if nothing is
said, whatever its bounds. -/
theorem dial_not_within :
    ¬ ∀ (b : Binding) (props : Props) (built : Nanos) (e : Element),
      (b.build "dial" props built).1 = .ok e →
        ∀ uses : List Use, ∃ d, e.useAll uses = .dial d ∧ d.IsWithin := by
  intro h
  obtain ⟨d, hd, hwithin⟩ :=
    h ⟨{}, {}, []⟩ (fiveToTen none) 0 _ (build_fiveToTen none (by decide +kernel)) []
  cases hd
  revert hwithin
  decide +kernel

end MachinePanel
