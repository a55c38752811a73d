/-
Elements that do nothing but follow one pin: the bar, the meter and the image. What becomes of one
in a use is settled by the value that it reads, if it reads any (`Followers`), so that what it is
after any number of uses is settled by the values read in them (`Followers.useAll`). Updates that
cannot read the pin do not count.
-/
import MachinePanel.Proofs.Ranges

namespace MachinePanel

/-- The value that a pin is read with, if it can be read. -/
def PinView.value? (view : PinView) (pin : Handle) : Option Value :=
  (view.read pin).toOption.map Prod.fst

/-- The value that a pin is read with in a use, if it is an update and can read it. -/
def Use.value? (pin : Handle) : Use → Option Value
  | act _ => none
  | update _ view => view.value? pin

/-- The values that a pin is read with in several uses. -/
def followedValues (pin : Handle) (uses : List Use) : List Value :=
  uses.filterMap (Use.value? pin)

theorem followedValues_cons (pin : Handle) (use : Use) (rest : List Use) :
    followedValues pin (use :: rest) = (use.value? pin).toList ++ followedValues pin rest := by
  rw [followedValues, followedValues, List.filterMap_cons]
  cases use.value? pin <;> rfl

section

variable {σ τ : Type} (enter : σ → Value → σ) (part : σ → τ)

/-- A part that no value changes stays as it is. -/
theorem foldl_fixed (h : ∀ s v, part (enter s v) = part s) (values : List Value) (s : σ) :
    part (values.foldl enter s) = part s := by
  induction values generalizing s with
  | nil => rfl
  | cons v rest ih => exact (ih (enter s v)).trans (h s v)

/-- A part that each value makes anew is that of the last one. -/
theorem foldl_last {of : Value → τ} (h : ∀ s v, part (enter s v) = of v) (values : List Value)
    (s : σ) : part (values.foldl enter s) = values.getLast?.elim (part s) of := by
  induction values generalizing s with
  | nil => rfl
  | cons v rest ih =>
    rw [List.foldl_cons, ih, h, List.getLast?_cons]
    cases rest.getLast? <;> rfl

end

/-- What an update that only reads one pin comes to. -/
theorem PinView.reading_eq {α : Type} (view : PinView) (pin : Handle) (element : α)
    {go : Value → PinView → Refresh α} {enter : Value → α}
    (hgo : ∀ v view', (go v view').element = enter v ∧ (go v view').error = none) :
    let refresh := view.reading pin element go
    refresh.element = (view.value? pin).elim element enter ∧
      (refresh.error = none ↔ (view.value? pin).isSome) := by
  unfold reading value?
  cases view.read pin with
  | error e => exact ⟨rfl, iff_of_false nofun nofun⟩
  | ok r => exact ⟨(hgo r.1 r.2).1, iff_of_true (hgo r.1 r.2).2 rfl⟩

/-- Elements of a kind follow one pin each: their users have no part in what they are, and an
update enters the value that it reads, or else fails. -/
structure Followers {σ : Type} (wrap : σ → Element) (pin : σ → Handle) (enter : σ → Value → σ) :
    Prop where
  act : ∀ s action, (wrap s).act action = none
  update : ∀ s now view, ((wrap s).update now view).element =
    wrap ((view.value? (pin s)).elim s (enter s))
  error : ∀ s now view, ((wrap s).update now view).error = none ↔ (view.value? (pin s)).isSome
  pin_enter : ∀ s v, pin (enter s v) = pin s

namespace Followers

variable {σ : Type} {wrap : σ → Element} {pin : σ → Handle} {enter : σ → Value → σ}

theorem use (h : Followers wrap pin enter) (s : σ) (use : Use) :
    (wrap s).use use = wrap ((use.value? (pin s)).toList.foldl enter s) := by
  cases use with
  | act action => rw [Element.use, h.act, Use.value?, Option.toList_none, List.foldl_nil]
  | update now view =>
    rw [Element.use, h.update, Use.value?]
    cases view.value? (pin s) <;> rfl

theorem pin_foldl (h : Followers wrap pin enter) (values : List Value) (s : σ) :
    pin (values.foldl enter s) = pin s :=
  foldl_fixed enter pin h.pin_enter values s

/-- **What the element is after several uses is settled by the values read in them.** -/
theorem useAll (h : Followers wrap pin enter) (uses : List Use) (s : σ) :
    (wrap s).useAll uses = wrap ((followedValues (pin s) uses).foldl enter s) := by
  induction uses generalizing s with
  | nil => rfl
  | cons use rest ih =>
    have hrest := ih ((use.value? (pin s)).toList.foldl enter s)
    rw [h.pin_foldl, ← h.use s use] at hrest
    rw [followedValues_cons, List.foldl_append]
    exact hrest

end Followers

end MachinePanel
