/-
What indicators show when an update fails. An indicator reads its pins before it takes anything in,
and so keeps all that it shows if one of them cannot be read (`indicator_quits`). A lamp is the one
exception: it is on or off by its own pin before it reads the pin that disables it. If that read
fails, the lamp has forgotten that it was disabled, or shows a change that it was to hide
(`display_failed_iff`).
-/
import MachinePanel.Element.Binder
import MachinePanel.Proofs.Program

namespace MachinePanel

variable {α β : Type}

/-! ## Programs that stop at a pin -/

namespace PinProgram

variable {left : α → Prop} {program : PinProgram α}

/-- Whichever pin the program stops at, the element is left so. -/
def Quits (left : α → Prop) : PinProgram α → Prop
  | done .. => True
  | read _ failed next => left failed ∧ ∀ value, (next value).Quits left
  | write _ _ failed next => left failed ∧ next.Quits left

theorem quits_map {f : α → β} {left : β → Prop} :
    (program.map f).Quits left ↔ program.Quits fun a => left (f a) := by
  induction program with
  | done element unknownImage => rfl
  | read pin failed next ih => simp only [map, Quits, ih]
  | write pin value failed next ih => simp only [map, Quits, ih]

theorem Quits.run (h : program.Quits left) {view : PinView}
    (herror : (program.run view).error ≠ none) : left (program.run view).element := by
  induction program generalizing view with
  | done element unknownImage => exact absurd rfl herror
  | read pin failed next ih =>
    simp only [PinProgram.run, PinView.reading] at herror ⊢
    split at herror
    · exact ih _ (h.2 _) herror
    · exact h.1
  | write pin value failed next ih =>
    simp only [PinProgram.run, PinView.writing] at herror ⊢
    split at herror
    · exact ih h.2 herror
    · exact h.1

end PinProgram

/-! ## What is shown -/

/-- What an indicator shows at a moment. -/
inductive Display where
  | lamp (state : LampState)
  | number (text : String) (value : Option Value)
  | bar (text : String) (fill : Float)
  | meter (value angle : Float)
  | label (text : String) (disabled : Bool)
  | timer (text : String) (elapsed : Nanos)
  | image (name : Option String)

namespace Element

/-- What an element shows at a moment, if it is an indicator. -/
def display? (now : Nanos) : Element → Option Display
  | lamp l => some (.lamp l.state)
  | number n => some (.number n.text n.value)
  | bar b => some (.bar b.text b.fill)
  | meter m => some (.meter m.value m.angle)
  | label l => some (.label l.text l.disabled)
  | timer t => some (.timer t.text (t.elapsed now))
  | image s => some (.image s.image)
  | _ => none

end Element

/-- The state of a lamp that is not disabled. -/
def LampState.lit (high : Bool) : LampState :=
  if high then .on else .off

/-- The lamp's own pin can be read, and would change what the lamp shows, but the pin that disables
the lamp cannot. -/
def Lamp.HalfRead (l : Lamp) (view : PinView) (high : Bool) : Prop :=
  ∃ value view' disable e, view.read l.pin = .ok (value, view') ∧ value.asBool = high ∧
    l.state ≠ .lit high ∧ l.disable = some disable ∧ view'.read disable = .error e

variable {e : Element} {d : Display} {now : Nanos} {view : PinView}

/-- **All indicators but lamps read their pins before they take anything in.** -/
theorem Element.indicator_quits (hindicator : e.display? now = some d) (hlamp : ∀ l, e ≠ .lamp l) :
    (e.program now).Quits (· = e) := by
  cases e with
  | lamp l => exact absurd rfl (hlamp l)
  | number n =>
    refine PinProgram.quits_map.2 ⟨rfl, fun value => ?_⟩
    simp only
    split <;> trivial
  | bar b =>
    refine PinProgram.quits_map.2 ⟨rfl, fun value => ?_⟩
    simp only
    split <;> trivial
  | meter m => exact PinProgram.quits_map.2 ⟨rfl, fun _ => trivial⟩
  | label l =>
    refine PinProgram.quits_map.2 ?_
    unfold Label.program
    cases l.disable with
    | none => trivial
    | some pin => exact ⟨rfl, fun _ => trivial⟩
  | timer t => exact PinProgram.quits_map.2 ⟨rfl, fun _ => ⟨rfl, fun _ => trivial⟩⟩
  | image s =>
    refine PinProgram.quits_map.2 ⟨rfl, fun value => ?_⟩
    simp only
    split
    · trivial
    · split <;> trivial
  | _ => cases hindicator

/-- A lamp whose update fails could not read its own pin, or has taken it in and could not read
the pin that disables it. -/
theorem Lamp.update_failed (l : Lamp) (herror : (l.update view).error ≠ none) :
    ((∃ e, view.read l.pin = .error e) ∧ (l.update view).element = l) ∨
      ∃ value view' disable e, view.read l.pin = .ok (value, view') ∧ l.disable = some disable ∧
        view'.read disable = .error e ∧
        (l.update view).element = { l with state := .lit value.asBool } := by
  simp only [update, PinView.reading] at herror ⊢
  cases hread : view.read l.pin with
  | error e => exact .inl ⟨⟨e, rfl⟩, rfl⟩
  | ok r =>
    obtain ⟨value, view'⟩ := r
    rw [hread] at herror
    simp only at herror ⊢
    cases hdisable : l.disable with
    | none =>
      rw [hdisable] at herror
      exact absurd rfl herror
    | some disable =>
      rw [hdisable] at herror
      simp only at herror ⊢
      cases hdisabled : view'.read disable with
      | ok r =>
        rw [hdisabled] at herror
        exact absurd rfl herror
      | error e => exact .inr ⟨value, view', disable, e, rfl, rfl, hdisabled, rfl⟩

/-- **An indicator whose update fails shows what it showed, if and only if** it is no lamp that has
taken in a change of its own pin before it could not read the pin that disables it. Such a lamp
shows its own pin from then on, disabled or not; any other indicator is the same in all respects. -/
theorem display_failed_iff (e : Element) (now : Nanos) (view : PinView) (d : Display)
    (hindicator : e.display? now = some d) (herror : (e.update now view).error ≠ none) :
    ((e.update now view).element.display? now = some d ↔
      ¬ ∃ l high, e = .lamp l ∧ l.HalfRead view high) ∧
    ((∀ l, e ≠ .lamp l) → (e.update now view).element = e) ∧
    ∀ l high, e = .lamp l → l.HalfRead view high →
      (e.update now view).element = .lamp { l with state := .lit high } := by
  have hkeeps (hlamp : ∀ l, e ≠ .lamp l) : (e.update now view).element = e := by
    rw [e.update_eq_run] at herror ⊢
    exact (Element.indicator_quits hindicator hlamp).run herror
  by_cases hlamp : ∃ l, e = .lamp l
  · obtain ⟨l, rfl⟩ := hlamp
    cases hindicator
    have hupdate : ((Element.lamp l).update now view).element = .lamp (l.update view).element := rfl
    refine ⟨?_, hkeeps, ?_⟩
    · rw [hupdate]
      simp only [Element.display?, Option.some.injEq, Display.lamp.injEq]
      obtain ⟨⟨e, hread⟩, hsame⟩ | ⟨value, view', disable, e, hread, hdisable, hdisabled, hlit⟩ :=
        l.update_failed herror
      · rw [hsame]
        refine iff_of_true rfl ?_
        rintro ⟨_, _, ⟨⟩, _, _, _, _, hread', -⟩
        rw [hread] at hread'
        cases hread'
      · rw [hlit]
        constructor
        · rintro hstate ⟨_, high, ⟨⟩, _, _, _, _, hread', rfl, hne, -⟩
          rw [hread] at hread'
          cases hread'
          exact hne hstate.symm
        · refine fun hnot => Classical.byContradiction fun hne => hnot ?_
          exact ⟨l, _, rfl, value, view', disable, e, hread, rfl, Ne.symm hne, hdisable, hdisabled⟩
    · rintro _ high ⟨⟩ ⟨value, view', disable, e, hread, rfl, -, hdisable, hdisabled⟩
      rw [hupdate]
      obtain ⟨⟨e', hread'⟩, -⟩ | ⟨value', _, _, _, hread', -, -, hlit⟩ := l.update_failed herror
      · rw [hread] at hread'
        cases hread'
      · rw [hread] at hread'
        cases hread'
        rw [hlit]
  · have hno : ∀ l, e ≠ .lamp l := fun l h => hlamp ⟨l, h⟩
    refine ⟨iff_of_true ?_ ?_, hkeeps, fun l _ h => absurd h (hno l)⟩
    · rw [hkeeps hno, hindicator]
    · rintro ⟨l, -, h, -⟩
      exact hno l h

/-- A timer that has counted for three seconds. -/
def counting : Timer :=
  { Timer.new "t" 0 with lastRun := true, text := "00:00:03" }

/-- The reset pin of the timer is high, and its other pin is missing. -/
def halfGone : PinView where
  store := ⟨[("t.reset", ⟨.input, .bit true⟩)]⟩

theorem display_failed_iff_timer :
    (Element.timer counting).display? 3000000000 = some (.timer "00:00:03" 3000000000) ∧
      ((Element.timer counting).update 3000000000 halfGone).error = some (.notFound "t.run") ∧
      ((Element.timer counting).update 3000000000 halfGone).element.display? 3000000000 =
        some (.timer "00:00:03" 3000000000) := by
  have herror : ((Element.timer counting).update 3000000000 halfGone).error =
      some (.notFound "t.run") := rfl
  refine ⟨rfl, herror, ?_⟩
  refine (display_failed_iff (.timer counting) 3000000000 halfGone _ rfl ?_).1.2 ?_
  · rw [herror]
    nofun
  · rintro ⟨_, _, heq, -⟩
    cases heq

/-! ## Indicators in use -/

/-- The element after several updates. -/
def Element.updateAll (e : Element) (updates : List (Nanos × PinView)) : Element :=
  updates.foldl (fun e u => (e.update u.1 u.2).element) e

/-- The pins of a lamp `x` that is off and disabled. -/
def disabledPins : PinView where
  store := ⟨[("x", ⟨.input, .bit false⟩), ("x.disable", ⟨.input, .bit true⟩)]⟩

/-- The pin that disabled the lamp is gone. -/
def enabledPins : PinView where
  store := ⟨[("x", ⟨.input, .bit false⟩)]⟩

/-- It is not so that an indicator whose update fails always shows what it showed: a lamp that was
disabled is shown as off when the pin that disables it is removed. -/
theorem display_changes :
    ¬ ∀ (b : Binding) (tag : String) (props : Props) (built : Nanos) (e : Element),
      (b.build tag props built).1 = .ok e →
        ∀ (updates : List (Nanos × PinView)) (now : Nanos) (view : PinView) (d : Display),
          (e.updateAll updates).display? now = some d →
            ((e.updateAll updates).update now view).error ≠ none →
              ((e.updateAll updates).update now view).element.display? now = some d := by
  intro h
  have hdisplay := h ⟨{}, {}, []⟩ "led" { pinName := some "x", disablePin := true } 0 _ rfl
    [(0, disabledPins)] 0 enabledPins (.lamp .disabled) rfl
  cases hdisplay (show some (PinError.notFound "x.disable") ≠ none from nofun)

end MachinePanel
