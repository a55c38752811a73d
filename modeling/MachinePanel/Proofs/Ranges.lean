/-
Controls that hold a value between two bounds: the spin box and the scale. A number that is set is
moved within the bounds, and NaN is ignored, so that a value within the bounds stays there whatever
the user does (`Range.isWithin_use_iff`). Only the first value is not looked at: if it is NaN, the
control has NaN for its value and writes it, until a number is set (`range_isWithin_iff`).
-/
import MachinePanel.Element.Binder
import MachinePanel.Proofs.Designs
import MachinePanel.Proofs.ExactValues
import MachinePanel.Proofs.StoreFacts

namespace MachinePanel

/-! ## Elements in use -/

/-- What happens to an element: its user acts on it, or it is updated. -/
inductive Use where
  | act (action : UserAction)
  | update (now : Nanos) (view : PinView)

/-- A number is set. -/
def Use.SetsNumber (use : Use) : Prop :=
  ∃ x : Float, use = .act (.set x) ∧ x.isNaN = false

namespace Element

/-- The element after a use. An action that it does not take, or that fails, changes nothing. -/
def use (e : Element) : Use → Element
  | .act action =>
    match e.act action with
    | some (.ok e) => e
    | _ => e
  | .update now view => (e.update now view).element

/-- The element after several uses. -/
def useAll (e : Element) (uses : List Use) : Element :=
  uses.foldl use e

end Element

/-- What goes on after a write finds the value in the pin, and all other pins as they were. -/
theorem PinView.read_of_writing {α : Type} {view : PinView} {pin : Handle} {value : Value}
    {element : α} {go : PinView → Refresh α}
    (hok : (view.writing pin value element go).error = none) :
    ∃ view', view.writing pin value element go = go view' ∧ ∀ name,
      view'.store.read name = if name = pin.name then .ok value else view.store.read name := by
  unfold writing at hok ⊢
  cases hwrite : view.write pin value with
  | error e =>
    rw [hwrite] at hok
    cases hok
  | ok view' =>
    obtain ⟨store, hstore, rfl⟩ := exists_of_write hwrite
    exact ⟨_, rfl, PinStore.read_of_write hstore⟩

/-! ## Ranges -/

namespace Range

/-- The value lies within the bounds. -/
def IsWithin (r : Range) : Prop :=
  Binary64.Within r.min r.max r.value

/-- The range after a use of its control. -/
def use (r : Range) : Use → Range
  | .act .up => r.up
  | .act .down => r.down
  | .act (.set x) => r.set x
  | _ => r

/-- The range after several uses of its control. -/
def useAll (r : Range) (uses : List Use) : Range :=
  uses.foldl use r

/-- A range of these bounds, whose value lies within them or is NaN. -/
structure Between (low high : Float) (r : Range) : Prop where
  min_eq : r.min = low
  max_eq : r.max = high
  lt : low < high
  value : r.IsWithin ∨ r.value.isNaN = true

variable {r : Range} {low high x : Float}

theorem IsWithin.isNaN (h : r.IsWithin) : r.value.isNaN = false :=
  Binary64.Within.isNaN h

theorem set_of_isNaN (hx : x.isNaN = true) : r.set x = r :=
  if_pos hx

theorem isWithin_set (h : r.min < r.max) (hx : x.isNaN = false) : (r.set x).IsWithin := by
  rw [set, hx]
  exact Binary64.within_clamp h hx

theorem Between.set (h : Between low high r) (x : Float) : Between low high (r.set x) := by
  by_cases hx : x.isNaN = true
  · rwa [set_of_isNaN hx]
  · have hx := Bool.eq_false_iff.2 hx
    have hwithin : (r.set x).IsWithin := isWithin_set (h.min_eq ▸ h.max_eq ▸ h.lt) hx
    rw [Range.set, hx] at hwithin ⊢
    exact ⟨h.min_eq, h.max_eq, h.lt, .inl hwithin⟩

theorem Between.isWithin_set_iff (h : Between low high r) :
    (r.set x).IsWithin ↔ r.IsWithin ∨ x.isNaN = false := by
  by_cases hx : x.isNaN = true
  · rw [set_of_isNaN hx, or_iff_left fun hnumber => Bool.eq_false_iff.1 hnumber hx]
  · have hx := Bool.eq_false_iff.2 hx
    exact iff_of_true (isWithin_set (h.min_eq ▸ h.max_eq ▸ h.lt) hx) (.inr hx)

/-- To move away from NaN by a step leaves NaN. -/
theorem Between.isWithin_step_iff (h : Between low high r)
    (hx : r.value.isNaN = true → x.isNaN = true) : (r.set x).IsWithin ↔ r.IsWithin := by
  rw [h.isWithin_set_iff, or_iff_left_iff_imp]
  intro hnumber
  refine h.value.resolve_right fun hnan => ?_
  rw [hx hnan] at hnumber
  cases hnumber

theorem Between.use (h : Between low high r) (use : Use) : Between low high (r.use use) := by
  unfold Range.use
  split
  · exact h.set _
  · exact h.set _
  · exact h.set _
  · exact h

/-- **A value is within the bounds after a use if it was before, or if the use sets a number.** -/
theorem Between.isWithin_use_iff (h : Between low high r) (use : Use) :
    (r.use use).IsWithin ↔ r.IsWithin ∨ use.SetsNumber := by
  unfold Range.use
  split
  · rw [Range.up, h.isWithin_step_iff Binary64.isNaN_add]
    simp [Use.SetsNumber]
  · rw [Range.down, h.isWithin_step_iff Binary64.isNaN_sub]
    simp [Use.SetsNumber]
  · rw [h.isWithin_set_iff]
    simp [Use.SetsNumber]
  · next hset =>
    refine (or_iff_left ?_).symm
    rintro ⟨x, rfl, -⟩
    exact hset x rfl

theorem Between.useAll (h : Between low high r) (uses : List Use) :
    Between low high (r.useAll uses) ∧
      ((r.useAll uses).IsWithin ↔ r.IsWithin ∨ ∃ use ∈ uses, use.SetsNumber) := by
  induction uses generalizing r with
  | nil => exact ⟨h, by simp [Range.useAll]⟩
  | cons use rest ih =>
    obtain ⟨hbetween, hwithin⟩ := ih (h.use use)
    refine ⟨hbetween, hwithin.trans ?_⟩
    rw [h.isWithin_use_iff]
    simp only [List.mem_cons, exists_eq_or_imp, or_assoc]

theorem lt_of_checkRange {min max : Float} (h : checkRange min max = .ok ()) : min < max := by
  unfold checkRange at h
  split at h
  · assumption
  · cases h

/-- A new range has the bounds of the properties, and its value lies within them unless the first
value of the properties is NaN. -/
theorem between_of_ofProps {props : Props} {limit : Float} (h : ofProps props limit = .ok r) :
    Between (props.min.getD 0.0) (props.max.getD limit) r ∧
      (r.IsWithin ↔ (props.initial.getD 0.0).isNaN = false) := by
  obtain ⟨⟨⟩, hcheck, h⟩ := Element.exists_of_bind_ok h
  obtain ⟨-, -, h⟩ := Element.exists_of_bind_ok h
  cases h
  have hlt : props.min.getD 0.0 < props.max.getD limit := lt_of_checkRange hcheck
  by_cases hx : (props.initial.getD 0.0).isNaN = true
  · have hvalue : (Binary64.clamp (props.min.getD 0.0) (props.max.getD limit)
        (props.initial.getD 0.0)).isNaN = true := by
      rw [Binary64.clamp_of_isNaN hx]
      exact hx
    refine ⟨⟨rfl, rfl, hlt, .inr hvalue⟩, iff_of_false (fun hwithin => ?_) fun hnumber => ?_⟩
    · exact Bool.eq_false_iff.1 hwithin.isNaN hvalue
    · exact Bool.eq_false_iff.1 hnumber hx
  · have hx := Bool.eq_false_iff.2 hx
    have hwithin := Binary64.within_clamp hlt hx
    exact ⟨⟨rfl, rfl, hlt, .inl hwithin⟩, iff_of_true hwithin hx⟩

end Range

/-! ## Spin boxes and scales -/

theorem exists_of_isOk {ε α : Type} {r : Except ε α} (h : r.isOk = true) : ∃ a, r = .ok a := by
  cases r with
  | ok a => exact ⟨a, rfl⟩
  | error e => cases h

/-- The upper bound that a control of a range has by itself. -/
def rangeLimit? : Tag → Option Float
  | .spinbox => some 100.0
  | .scale => some 10.0
  | _ => none

/-- The name of the pin for the float of a control on a base name. -/
def floatName (base : String) : Tag → String
  | .scale => base ++ "-f"
  | _ => base

namespace Element

/-- The range of an element that has one. -/
def range? : Element → Option Range
  | spinBox s => some s.range
  | scale s => some s.range
  | _ => none

/-- An element has this range, and the pin of this name, and no other, for its float. -/
def Ranges (name : String) (r : Range) : Element → Prop
  | spinBox s => s.range = r ∧ s.pin.name = name
  | scale s => s.range = r ∧ s.floatPin.name = name ∧ s.intPin.name ≠ name
  | _ => False

variable {e : Element} {name : String} {r : Range}

theorem Ranges.range? (h : e.Ranges name r) : e.range? = some r := by
  cases e with
  | spinBox s => exact congrArg some h.1
  | scale s => exact congrArg some h.1
  | _ => cases h

theorem Ranges.use (h : e.Ranges name r) (use : Use) : (e.use use).Ranges name (r.use use) := by
  cases e with
  | spinBox s =>
    obtain ⟨rfl, hname⟩ := h
    cases use with
    | act action => cases action <;> exact ⟨rfl, hname⟩
    | update now view =>
      simp only [Element.use, Element.update, Refresh.map, SpinBox.update, PinView.writing]
      split <;> exact ⟨rfl, hname⟩
  | scale s =>
    obtain ⟨rfl, hnames⟩ := h
    cases use with
    | act action => cases action <;> exact ⟨rfl, hnames⟩
    | update now view =>
      simp only [Element.use, Element.update, Refresh.map, Scale.update, PinView.writing]
      split
      · split <;> exact ⟨rfl, hnames⟩
      · exact ⟨rfl, hnames⟩
  | _ => cases h

theorem Ranges.useAll (h : e.Ranges name r) (uses : List Use) :
    (e.useAll uses).Ranges name (r.useAll uses) := by
  induction uses generalizing e r with
  | nil => exact h
  | cons use rest ih => exact ih (h.use use)

/-- An update that ends without an error has written the value. -/
theorem Ranges.read_update (h : e.Ranges name r) {now : Nanos} {view : PinView}
    (hok : (e.update now view).error = none) :
    (e.update now view).view.store.read name = .ok (.float r.value) := by
  cases e with
  | spinBox s =>
    obtain ⟨rfl, rfl⟩ := h
    change (s.update view).error = none at hok
    change (s.update view).view.store.read s.pin.name = _
    obtain ⟨view', hgo, hread⟩ := PinView.read_of_writing hok
    rw [SpinBox.update, hgo]
    exact (hread _).trans (if_pos rfl)
  | scale s =>
    obtain ⟨rfl, rfl, hapart⟩ := h
    change (s.update view).error = none at hok
    change (s.update view).view.store.read s.floatPin.name = _
    obtain ⟨view', hgo, hread⟩ := PinView.read_of_writing hok
    rw [Scale.update, hgo] at hok ⊢
    obtain ⟨view'', hgo', hread'⟩ := PinView.read_of_writing hok
    rw [hgo']
    -- The integer is written to another pin.
    exact (hread' _).trans ((if_neg (Ne.symm hapart)).trans ((hread _).trans (if_pos rfl)))
  | _ => cases h

/-- A control that has been made has the range of its properties. -/
theorem exists_ranges_of_build {b : Binding} {tag : Tag} {props : Props} {built : Nanos}
    {limit : Float} (hlimit : rangeLimit? tag = some limit)
    (h : (b.build tag.name props built).1 = .ok e) :
    ∃ r, Range.ofProps props limit = .ok r ∧
      e.Ranges (floatName (b.takeName props (some ⟨tag.name, ""⟩)).1 tag) r := by
  obtain ⟨design, hdesign, rfl⟩ := Binding.exists_design_of_build h
  cases tag with
  | spinbox =>
    cases hlimit
    obtain ⟨r, hr, hd⟩ := exists_of_bind_ok hdesign
    cases hd
    exact ⟨r, hr, rfl, rfl⟩
  | scale =>
    cases hlimit
    obtain ⟨r, hr, hd⟩ := exists_of_bind_ok hdesign
    cases hd
    have hapart (base : String) : base ++ "-i" ≠ base ++ "-f" := by simp
    exact ⟨r, hr, rfl, rfl, hapart _⟩
  | _ => cases hlimit

end Element

/-- **The value of a spin box or scale lies within the bounds, whatever has happened to it, if and
only if** its first value is not NaN, or a number has been set since. Otherwise the value is NaN. An
update that ends without an error writes this value. -/
theorem range_isWithin_iff {b : Binding} {tag : Tag} {props : Props} {built : Nanos} {e : Element}
    {limit : Float} (hlimit : rangeLimit? tag = some limit)
    (h : (b.build tag.name props built).1 = .ok e) (uses : List Use) :
    let base := (b.takeName props (some ⟨tag.name, ""⟩)).1
    let e' := e.useAll uses
    ∃ r, e'.range? = some r ∧ r.min = props.min.getD 0.0 ∧ r.max = props.max.getD limit ∧
      (r.IsWithin ↔
        (props.initial.getD 0.0).isNaN = false ∨ ∃ use ∈ uses, use.SetsNumber) ∧
      (¬ r.IsWithin → r.value.isNaN = true) ∧
      ∀ (now : Nanos) (view : PinView), (e'.update now view).error = none →
        (e'.update now view).view.store.read (floatName base tag) = .ok (.float r.value) := by
  intro base e'
  obtain ⟨r, hr, hranges⟩ := Element.exists_ranges_of_build hlimit h
  obtain ⟨hnew, hfirst⟩ := Range.between_of_ofProps hr
  obtain ⟨hbetween, hwithin⟩ := hnew.useAll uses
  have hranges' := hranges.useAll uses
  refine ⟨r.useAll uses, hranges'.range?, hbetween.min_eq, hbetween.max_eq, ?_, ?_, ?_⟩
  · rw [hwithin, hfirst]
  · exact hbetween.value.resolve_left
  · exact fun now view hok => hranges'.read_update hok

/-- A spin box whose first value is NaN. -/
def unnumbered : Props := { pinName := some "s", initial := some (0.0 / 0.0) }

theorem exists_unnumbered : ∃ e, (Binding.build ⟨{}, {}, []⟩ "spinbox" unnumbered 0).1 = .ok e :=
  exists_of_isOk (by decide +kernel)

theorem range_isWithin_iff_set :
    ∃ e r, (Binding.build ⟨{}, {}, []⟩ "spinbox" unnumbered 0).1 = .ok e ∧
      (e.useAll [.act .up, .act (.set 7.0), .act .down]).range? = some r ∧
      Binary64.Within 0.0 100.0 r.value := by
  obtain ⟨e, hbuild⟩ := exists_unnumbered
  have hlimit : rangeLimit? .spinbox = some 100.0 := rfl
  obtain ⟨r, hr, hmin, hmax, hwithin, -⟩ := range_isWithin_iff hlimit hbuild
    [.act .up, .act (.set 7.0), .act .down]
  have hset : (7.0 : Float).isNaN = false := by decide +kernel
  have hvalue := hwithin.2 (.inr ⟨.act (.set 7.0), by simp, 7.0, rfl, hset⟩)
  rw [Range.IsWithin, hmin, hmax] at hvalue
  exact ⟨e, r, hbuild, hr, hvalue⟩

/-- It is not so that the value is always within the bounds: the first value may be NaN. -/
theorem range_not_within :
    ¬ ∀ (b : Binding) (tag : Tag) (props : Props) (built : Nanos) (e : Element) (limit : Float),
      rangeLimit? tag = some limit → (b.build tag.name props built).1 = .ok e →
        ∀ uses : List Use, ∃ r, (e.useAll uses).range? = some r ∧ r.IsWithin := by
  intro h
  obtain ⟨e, hbuild⟩ := exists_unnumbered
  have hlimit : rangeLimit? .spinbox = some 100.0 := rfl
  obtain ⟨r, hr, hwithin⟩ := h ⟨{}, {}, []⟩ .spinbox unnumbered 0 e 100.0 hlimit hbuild []
  obtain ⟨r', hr', hranges⟩ := Element.exists_ranges_of_build hlimit hbuild
  obtain rfl : r' = r := Option.some.inj (hranges.range?.symm.trans hr)
  have hfirst : (unnumbered.initial.getD 0.0).isNaN = false :=
    (Range.between_of_ofProps hr').2.1 hwithin
  have hnan : (unnumbered.initial.getD 0.0).isNaN = true := by decide +kernel
  rw [hnan] at hfirst
  cases hfirst

end MachinePanel
