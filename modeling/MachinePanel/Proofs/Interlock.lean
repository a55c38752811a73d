/-
The interlock of a button. A button with a pin that disables it looks at this pin twice: it does not
take in what the user does while the last reading was high, and it does not write what it has taken
in if the next reading is. An update that cannot read the pin changes nothing at all. So what an
update attempts to write is told by the readings and the user alone: the last press or release that
was accepted since the last reading, if the present one is low (`Follows.stepAll`). A high reading
wipes out all that has been (`stepAll_locked`).

Writes are told as attempts, the one that fails included (`PinProgram.attempts`); what becomes of
the store is what they make of it (`store_run`).
-/
import MachinePanel.Element.Binder
import MachinePanel.Proofs.Outcome
import Mathlib.Data.List.Induction

namespace MachinePanel

/-! ## Attempts -/

namespace PinProgram

variable {α : Type}

/-- The writes that a program attempts on a view of the pins, up to the first pin that fails. -/
def attempts : PinProgram α → PinView → List (Handle × Value)
  | done .., _ => []
  | read pin _ next, view =>
    match view.read pin with
    | .ok (value, view) => (next value).attempts view
    | .error _ => []
  | write pin value _ next, view =>
    (pin, value) ::
      match view.write pin value with
      | .ok view => next.attempts view
      | .error _ => []

/-- **The store is what the attempted writes make of it.** -/
theorem store_run (program : PinProgram α) (view : PinView) :
    (program.run view).view.store = view.store.settleAll (program.attempts view) := by
  induction program generalizing view with
  | done element unknownImage => rfl
  | read pin failed next ih =>
    simp only [run, attempts, PinView.reading]
    cases hread : view.read pin with
    | error e => rfl
    | ok r => rw [← PinView.store_of_read hread, ih]
  | write pin value failed next ih =>
    simp only [run, attempts, PinView.writing]
    cases hwrite : view.write pin value with
    | error e =>
      have hsettle : view.store.settle (pin, value) = view.store := by
        unfold PinView.write at hwrite
        split at hwrite
        · cases hwrite
        · next hstore => simp only [PinStore.settle, hstore]
      exact hsettle.symm
    | ok view' =>
      obtain ⟨store, hstore, rfl⟩ := PinView.exists_of_write hwrite
      have hsettle : view.store.settle (pin, value) = store := by
        simp only [PinStore.settle, hstore]
      refine (ih _).trans ?_
      rw [PinStore.settleAll, PinStore.settleAll, List.foldl_cons, hsettle]
      rfl

end PinProgram

namespace Button

/-! ## The history of a button -/

/-- What happens to a button: the user holds or releases it, or it is updated. -/
inductive Step where
  | move (down : Bool)
  | update (view : PinView)

/-- The button after a step. -/
def step (b : Button) : Step → Button
  | .move down => b.move down
  | .update view => (b.update view).element

/-- The button after several steps. -/
def stepAll (b : Button) (steps : List Step) : Button :=
  steps.foldl step b

/-- What a step reads from the pin that disables the button; only an update that can read it
does. -/
def reading? (disable : Handle) : Step → Option Bool
  | .move _ => none
  | .update view =>
    match view.read disable with
    | .ok (value, _) => some value.asBool
    | .error _ => none

/-- The last reading of the pin that disables the button; low if there is none. -/
def lastReading (disable : Handle) (steps : List Step) : Bool :=
  (steps.filterMap (reading? disable)).getLast?.getD false

/-- At this position the user has held or released the button. This was accepted, for the last
reading was low, and there has been no reading since. -/
structure Stands (disable : Handle) (steps : List Step) (i : Nat) (down : Bool) : Prop where
  moved : steps[i]? = some (.move down)
  accepted : lastReading disable (steps.take i) = false
  unread : ∀ s ∈ steps.drop (i + 1), reading? disable s = none

/-- The last press or release that stands, if any does. -/
def LastStanding (disable : Handle) (steps : List Step) : Option Bool → Prop
  | none => ∀ i down, ¬ Stands disable steps i down
  | some down => ∃ i, Stands disable steps i down ∧
      ∀ j down', Stands disable steps j down' → j ≤ i

variable {b : Button} {disable : Handle} {steps : List Step} {s : Step} {view : PinView}
  {i : Nat} {down high : Bool}

theorem lastReading_concat (disable : Handle) (steps : List Step) (s : Step) :
    lastReading disable (steps ++ [s]) = (reading? disable s).getD (lastReading disable steps) := by
  simp only [lastReading, List.filterMap_append, List.filterMap_cons, List.filterMap_nil]
  cases reading? disable s with
  | none => simp
  | some high => simp

theorem Stands.lt_length (h : Stands disable steps i down) : i < steps.length := by
  obtain ⟨hlt, -⟩ := List.getElem?_eq_some_iff.1 h.moved
  exact hlt

/-- What stands after one more step has stood before and not been followed by a reading, or is
what the step does. -/
theorem stands_concat : Stands disable (steps ++ [s]) i down ↔
    (Stands disable steps i down ∧ reading? disable s = none) ∨
      (i = steps.length ∧ s = .move down ∧ lastReading disable steps = false) := by
  rcases Nat.lt_trichotomy i steps.length with hi | rfl | hi
  · have hdrop : (steps ++ [s]).drop (i + 1) = steps.drop (i + 1) ++ [s] :=
      List.drop_append_of_le_length hi
    have htake : (steps ++ [s]).take i = steps.take i :=
      List.take_append_of_le_length (Nat.le_of_lt hi)
    have hget : (steps ++ [s])[i]? = steps[i]? := List.getElem?_append_left hi
    constructor
    · rintro ⟨hmoved, haccepted, hunread⟩
      rw [hget] at hmoved
      rw [htake] at haccepted
      rw [hdrop] at hunread
      exact .inl ⟨⟨hmoved, haccepted, fun s' hs' => hunread s' (List.mem_append_left _ hs')⟩,
        hunread s (List.mem_append_right _ (List.mem_singleton_self s))⟩
    · rintro (⟨⟨hmoved, haccepted, hunread⟩, hs⟩ | ⟨rfl, -⟩)
      · refine ⟨hget.trans hmoved, by rw [htake, haccepted], fun s' hs' => ?_⟩
        rw [hdrop, List.mem_append, List.mem_singleton] at hs'
        rcases hs' with hs' | rfl
        · exact hunread s' hs'
        · exact hs
      · exact absurd hi (Nat.lt_irrefl _)
  · have hget : (steps ++ [s])[steps.length]? = some s := by simp
    have htake : (steps ++ [s]).take steps.length = steps := by simp
    constructor
    · rintro ⟨hmoved, haccepted, -⟩
      rw [hget] at hmoved
      rw [htake] at haccepted
      exact .inr ⟨rfl, Option.some.inj hmoved, haccepted⟩
    · rintro (⟨hstands, -⟩ | ⟨-, rfl, haccepted⟩)
      · exact absurd hstands.lt_length (Nat.lt_irrefl _)
      · exact ⟨hget, by rw [htake, haccepted], by simp⟩
  · refine iff_of_false (fun hstands => ?_) ?_
    · have hlt := hstands.lt_length
      rw [List.length_append, List.length_singleton] at hlt
      omega
    · rintro (⟨hstands, -⟩ | ⟨rfl, -⟩)
      · exact absurd hstands.lt_length (Nat.lt_asymm hi)
      · exact absurd hi (Nat.lt_irrefl _)

/-! ## One step -/

theorem attempts_flushProgram (b : Button) (view : PinView) :
    b.flushProgram.attempts view =
      if b.disabled then [] else (b.pending.map (b.pin, Value.bit ·)).toList := by
  unfold flushProgram
  cases b.pending with
  | none => simp [PinProgram.attempts]
  | some down =>
    simp only
    split
    · rfl
    · simp only [PinProgram.attempts]
      split <;> rfl

theorem element_flush (b : Button) (view : PinView) :
    (b.flush view).element = { b with pending := none } := by
  unfold flush
  cases b.pending with
  | none => rfl
  | some down =>
    simp only
    split
    · rfl
    · unfold PinView.writing
      split <;> rfl

/-- An update that cannot read the pin that disables the button does nothing. -/
theorem update_unread (hdisable : b.disable = some disable)
    (hread : reading? disable (.update view) = none) :
    (b.update view).element = b ∧ (b.update view).error ≠ none ∧ b.program.attempts view = [] := by
  cases hview : view.read disable with
  | ok r =>
    simp only [reading?, hview] at hread
    cases hread
  | error e =>
    simp only [update, program, hdisable, PinProgram.attempts, PinView.reading, hview]
    exact ⟨trivial, Option.some_ne_none e, trivial⟩

/-- Any other update takes the reading in and leaves nothing pending. What was pending it attempts
to write, if the reading is low. -/
theorem update_read (hdisable : b.disable = some disable)
    (hread : reading? disable (.update view) = some high) :
    (b.update view).element = { b with disabled := high, pending := none } ∧
      b.program.attempts view =
        if high then [] else (b.pending.map (b.pin, Value.bit ·)).toList := by
  cases hview : view.read disable with
  | ok r =>
    simp only [reading?, hview, Option.some.injEq] at hread
    simp only [update, program, hdisable, PinProgram.attempts, PinView.reading, hview, ← hread]
    exact ⟨element_flush _ _, attempts_flushProgram _ _⟩
  | error e =>
    simp only [reading?, hview] at hread
    cases hread

/-! ## Several steps -/

/-- The button is one that has been through these steps. -/
structure Follows (b₀ : Button) (disable : Handle) (steps : List Step) (b : Button) : Prop where
  pin : b.pin = b₀.pin
  guard : b.disable = some disable
  disabled : b.disabled = lastReading disable steps
  pending : LastStanding disable steps b.pending

theorem lastStanding_move (haccepted : lastReading disable steps = false) (down : Bool) :
    LastStanding disable (steps ++ [.move down]) (some down) := by
  refine ⟨steps.length, stands_concat.2 (.inr ⟨rfl, rfl, haccepted⟩), fun j down' hj => ?_⟩
  have hlt := hj.lt_length
  rw [List.length_append, List.length_singleton] at hlt
  exact Nat.le_of_lt_succ hlt

theorem lastStanding_congr {steps steps' : List Step} {pending : Option Bool}
    (hsame : ∀ i down, Stands disable steps' i down ↔ Stands disable steps i down)
    (h : LastStanding disable steps pending) : LastStanding disable steps' pending := by
  cases pending with
  | none => exact fun i down hi => h i down ((hsame i down).1 hi)
  | some down =>
    obtain ⟨i, hi, hlast⟩ := h
    exact ⟨i, (hsame i down).2 hi, fun j down' hj => hlast j down' ((hsame j down').1 hj)⟩

theorem LastStanding.ne_none_iff {pending : Option Bool} (h : LastStanding disable steps pending) :
    pending ≠ none ↔ ∃ i down, Stands disable steps i down := by
  cases pending with
  | none =>
    refine iff_of_false (fun hne => hne rfl) ?_
    rintro ⟨i, down, hi⟩
    exact h i down hi
  | some down =>
    obtain ⟨i, hi, -⟩ := h
    exact iff_of_true (Option.some_ne_none down) ⟨i, down, hi⟩

/-- Only one thing happens at a position, so that one press or release is the last that stands. -/
theorem LastStanding.eq_some {pending : Option Bool} (h : LastStanding disable steps pending)
    (hi : Stands disable steps i down) (hlast : ∀ j down', Stands disable steps j down' → j ≤ i) :
    pending = some down := by
  cases pending with
  | none => exact absurd hi (h i down)
  | some down' =>
    obtain ⟨j, hj, hlast'⟩ := h
    obtain rfl : i = j := Nat.le_antisymm (hlast' i down hi) (hlast j down' hj)
    have hsame : Step.move down' = Step.move down :=
      Option.some.inj (hj.moved.symm.trans hi.moved)
    rw [Step.move.inj hsame]

/-- **One step** changes what is read and what stands just as it changes the button. -/
theorem Follows.step {b₀ : Button} (h : Follows b₀ disable steps b) (s : Step) :
    Follows b₀ disable (steps ++ [s]) (b.step s) := by
  have hreading := lastReading_concat disable steps s
  cases s with
  | move down =>
    rw [Button.step, move]
    split
    · next hdisabled =>
      -- The button is disabled, so that the last reading was high: nothing new stands.
      refine ⟨h.pin, h.guard, hreading ▸ h.disabled, lastStanding_congr (fun i down' => ?_)
        h.pending⟩
      rw [h.disabled] at hdisabled
      simp [stands_concat, hdisabled, reading?]
    · next hdisabled =>
      rw [h.disabled, Bool.not_eq_true] at hdisabled
      exact ⟨h.pin, h.guard, hreading ▸ h.disabled, lastStanding_move hdisabled down⟩
  | update view =>
    cases hread : reading? disable (.update view) with
    | none =>
      rw [Button.step, (update_unread h.guard hread).1]
      rw [hread] at hreading
      refine ⟨h.pin, h.guard, hreading ▸ h.disabled, lastStanding_congr (fun i down => ?_)
        h.pending⟩
      simp [stands_concat, hread]
    | some high =>
      rw [Button.step, (update_read h.guard hread).1]
      rw [hread] at hreading
      refine ⟨h.pin, h.guard, hreading.symm, fun i down => ?_⟩
      simp [stands_concat, hread]

/-- **Several steps**: what is read and what stands tell the button. -/
theorem Follows.stepAll {b₀ : Button} (h : Follows b₀ disable steps b) (later : List Step) :
    Follows b₀ disable (steps ++ later) (b.stepAll later) := by
  induction later generalizing steps b with
  | nil =>
    rw [List.append_nil]
    exact h
  | cons s rest ih =>
    rw [List.append_cons]
    exact ih (h.step s)

/-- **What an update attempts to write that reads the pin low**: the last press or release that
stands, and nothing else. -/
theorem Follows.attempts_low {b₀ : Button} (h : Follows b₀ disable steps b)
    (hread : reading? disable (.update view) = some false) :
    let writes := b.program.attempts view
    (writes ≠ [] ↔ ∃ i down, Stands disable steps i down) ∧
      ∀ i down, Stands disable steps i down →
        (∀ j down', Stands disable steps j down' → j ≤ i) → writes = [(b₀.pin, .bit down)] := by
  intro writes
  have hwrites : writes = (b.pending.map (b.pin, Value.bit ·)).toList :=
    (update_read h.guard hread).2
  rw [hwrites, h.pin]
  refine ⟨?_, fun i down hi hlast => ?_⟩
  · rw [← h.pending.ne_none_iff]
    cases b.pending <;> simp
  · rw [h.pending.eq_some hi hlast]
    rfl

theorem follows_self (hdisable : b.disable = some disable) (hdisabled : b.disabled = false)
    (hpending : b.pending = none) : Follows b disable [] b := by
  refine ⟨rfl, hdisable, hdisabled, ?_⟩
  rw [hpending]
  rintro i down ⟨hmoved, -⟩
  cases hmoved

/-- Steps without a reading leave a disabled button as it is. -/
theorem stepAll_unread (hdisable : b.disable = some disable) (hdisabled : b.disabled = true)
    (hunread : ∀ s ∈ steps, reading? disable s = none) : b.stepAll steps = b := by
  induction steps with
  | nil => rfl
  | cons s rest ih =>
    have hstep : b.step s = b := by
      cases s with
      | move down => exact if_pos hdisabled
      | update view => exact (update_unread hdisable (hunread _ (List.mem_cons_self ..))).1
    rw [Button.stepAll, List.foldl_cons, hstep]
    exact ih fun s hs => hunread s (List.mem_cons_of_mem _ hs)

/-- **A high reading wipes out all that has been**, and as long as there is no other reading, all
that comes after it is lost. -/
theorem stepAll_locked {between : List Step} (hdisable : b.disable = some disable)
    (hread : reading? disable (.update view) = some true)
    (hunread : ∀ s ∈ between, reading? disable s = none) :
    b.stepAll (.update view :: between) = { b with disabled := true, pending := none } := by
  have hstep : b.step (.update view) = { b with disabled := true, pending := none } :=
    (update_read hdisable hread).1
  rw [stepAll, List.foldl_cons, hstep]
  exact stepAll_unread hdisable rfl hunread

/-- What a high reading finds standing does not stand later, nor does what comes until the next
reading. -/
theorem not_stands_locked {before between after : List Step}
    (hread : reading? disable (.update view) = some true)
    (hunread : ∀ s ∈ between, reading? disable s = none)
    (hi : i < (before ++ .update view :: between).length) :
    ¬ Stands disable (before ++ .update view :: between ++ after) i down := by
  rintro ⟨hmoved, haccepted, hlater⟩
  rw [List.getElem?_append_left hi] at hmoved
  rw [List.take_append_of_le_length (Nat.le_of_lt hi)] at haccepted
  rw [List.drop_append_of_le_length hi] at hlater
  rcases Nat.lt_trichotomy i before.length with hlt | rfl | hgt
  · -- It came before the reading.
    refine absurd (hlater (.update view) (List.mem_append_left _ ?_)) (by simp [hread])
    rw [List.drop_append_of_le_length hlt]
    exact List.mem_append_right _ (List.mem_cons_self ..)
  · -- It is the reading.
    simp at hmoved
  · -- It came later, when the last reading was high.
    obtain ⟨n, rfl⟩ := Nat.exists_eq_add_of_lt hgt
    have htake : (before ++ .update view :: between).take (before.length + n + 1) =
        before ++ .update view :: between.take n := by
      rw [Nat.add_assoc, List.take_length_add_append, List.take_succ_cons]
    have hnone : (between.take n).filterMap (reading? disable) = [] :=
      List.filterMap_eq_nil_iff.2 fun s hs => hunread s (List.mem_of_mem_take hs)
    rw [htake, lastReading, List.filterMap_append, List.filterMap_cons_some hread, hnone]
      at haccepted
    simp at haccepted

/-! ## Buttons of a panel -/

/-- A button that has been made with a pin that disables it. -/
theorem exists_of_build {bd : Binding} {props : Props} {now : Nanos} {e : Element}
    (h : (bd.build "button" props now).1 = .ok e) (hprops : props.disablePin = true) :
    ∃ b base, e = .button b ∧ b.pin = ⟨base, .output, .bit⟩ ∧
      b.disable = some ⟨base ++ ".disable", .input, .bit⟩ ∧ b.disabled = false ∧
      b.pending = none := by
  change (bd.build Tag.button.name props now).1 = .ok e at h
  obtain ⟨design, hdesign, rfl⟩ := Binding.exists_design_of_build h
  cases hdesign
  refine ⟨_, _, rfl, rfl, ?_, rfl, rfl⟩
  exact if_pos hprops

/-- **The interlock of a button.** Whatever the user has done and the updates have found, an update
that cannot read the pin that disables the button does nothing, and one that reads it high writes
nothing. An update that reads it low attempts to write if and only if a press or release stands, and
then just the last one that does, once. What happened before an update that read the pin high, or
between it and the next reading, has no part in any later update. -/
theorem interlock {bd : Binding} {props : Props} {now : Nanos} {e : Element}
    (h : (bd.build "button" props now).1 = .ok e) (hprops : props.disablePin = true) :
    ∃ b base, e = .button b ∧ b.pin = ⟨base, .output, .bit⟩ ∧
      let disable : Handle := ⟨base ++ ".disable", .input, .bit⟩
      b.disable = some disable ∧
      (∀ (steps : List Step) (view : PinView),
        let b' := b.stepAll steps
        let done := b'.update view
        let writes := b'.program.attempts view
        done = b'.program.run view ∧ done.view.store = view.store.settleAll writes ∧
        (reading? disable (.update view) = none →
          writes = [] ∧ done.element = b' ∧ done.error ≠ none) ∧
        (reading? disable (.update view) = some true → writes = []) ∧
        (reading? disable (.update view) = some false →
          (writes ≠ [] ↔ ∃ i down, Stands disable steps i down) ∧
          ∀ i down, Stands disable steps i down →
            (∀ j down', Stands disable steps j down' → j ≤ i) → writes = [(b.pin, .bit down)])) ∧
      (∀ (before between after : List Step) (view : PinView),
        reading? disable (.update view) = some true →
        (∀ s ∈ between, reading? disable s = none) →
        b.stepAll (before ++ .update view :: between ++ after) =
          { b with disabled := true, pending := none }.stepAll after ∧
        ∀ i down, i < (before ++ .update view :: between).length →
          ¬ Stands disable (before ++ .update view :: between ++ after) i down) := by
  obtain ⟨b, base, rfl, hpin, hdisable, hdisabled, hpending⟩ := exists_of_build h hprops
  refine ⟨b, base, rfl, hpin, ?_⟩
  intro disable
  refine ⟨hdisable, fun steps view => ?_, fun before between after view hread hunread => ⟨?_,
    fun i down => not_stands_locked hread hunread⟩⟩
  · intro b' done writes
    have hfollows : Follows b disable steps b' :=
      (follows_self hdisable hdisabled hpending).stepAll steps
    have hrun : done = b'.program.run view := b'.update_eq_run view
    refine ⟨hrun, hrun ▸ b'.program.store_run view, fun hread => ?_, fun hread => ?_,
      fun hread => hfollows.attempts_low hread⟩
    · obtain ⟨helement, herror, hwrites⟩ := update_unread hfollows.guard hread
      exact ⟨hwrites, helement, herror⟩
    · exact (update_read hfollows.guard hread).2
  · have hfollows : Follows b disable before (b.stepAll before) :=
      (follows_self hdisable hdisabled hpending).stepAll before
    have hlocked : (b.stepAll before).stepAll (.update view :: between) =
        { b with disabled := true, pending := none } := by
      rw [stepAll_locked hfollows.guard hread hunread, hfollows.pin, hfollows.guard, hdisable]
    rw [← hlocked, stepAll, stepAll, stepAll, stepAll, List.foldl_append, List.foldl_append]

/-- The properties of a button `x` with a pin that disables it. -/
def guarded : Props := { pinName := some "x", disablePin := true }

/-- The pins of the button. -/
def pinsAt (high : Bool) : PinView where
  store := ⟨[("x", ⟨.output, .bit false⟩), ("x.disable", ⟨.input, .bit high⟩)]⟩

/-- The pin that disables the button is gone. -/
def withoutGuard : PinView where
  store := ⟨[("x", ⟨.output, .bit false⟩)]⟩

theorem interlock_pressed :
    let b := Button.new "x" guarded
    (Binding.build ⟨{}, {}, []⟩ "button" guarded 0).1 = .ok (.button b) ∧
      guarded.disablePin = true ∧
      (b.stepAll [.move true, .update withoutGuard]).program.attempts (pinsAt false) =
        [(⟨"x", .output, .bit⟩, .bit true)] ∧
      (b.stepAll [.move true, .update (pinsAt true), .move true]).program.attempts
        (pinsAt false) = [] := by
  intro b
  have hbuild : (Binding.build ⟨{}, {}, []⟩ "button" guarded 0).1 = .ok (.button b) := by rfl
  obtain ⟨_, base, heq, hpin, -, hupdate, hlocked⟩ := interlock hbuild rfl
  cases heq
  cases hpin
  refine ⟨hbuild, rfl, ?_, ?_⟩
  · obtain ⟨-, -, -, -, hlow⟩ := hupdate [.move true, .update withoutGuard] (pinsAt false)
    refine (hlow rfl).2 0 true ⟨rfl, rfl, List.forall_mem_singleton.2 rfl⟩ fun j down' hj => ?_
    have hlt := hj.lt_length
    have hmoved := hj.moved
    match j with
    | 0 => exact Nat.le_refl 0
    | 1 => cases hmoved
    | j + 2 => exact absurd hlt (by simp)
  · obtain ⟨-, -, -, -, hlow⟩ :=
      hupdate [.move true, .update (pinsAt true), .move true] (pinsAt false)
    obtain ⟨-, hlost⟩ := hlocked [.move true] [.move true] [] (pinsAt true) rfl
      (List.forall_mem_singleton.2 rfl)
    refine Classical.byContradiction fun hne => ?_
    obtain ⟨i, down, hi⟩ := (hlow rfl).1.1 hne
    exact hlost i down hi.lt_length hi

end Button

end MachinePanel
