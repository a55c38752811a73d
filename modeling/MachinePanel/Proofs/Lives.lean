/-
The life of a panel: ticks, and what may come between them. What comes between ticks are
operations of whoever holds the panel, and chores, such as the time moving on. As long as
the clock of the pin watcher is not started, it has no alarm (`Dormant`), and every run is a
life, whether ticks are asked for or the clock of the driver makes them (`lives_run`).
-/
import MachinePanel.Proofs.Holding
import MachinePanel.Proofs.WatchClock
import MachinePanel.Proofs.Watching

namespace MachinePanel

namespace Panel

variable {L μ : Type} {p q r : Panel L μ} {react : Reaction L μ} {pin : Handle}

/-- What may happen between ticks: an operation that is admitted, or a chore that leaves the
flag of the pin watcher alone, such as the time moving on. -/
inductive Move (react : Reaction L μ) (admits : Operation L μ → Prop) (p : Panel L μ) :
    Panel L μ → Prop where
  | perform (op : Operation L μ) (hop : admits op) : Move react admits p (op.perform react p)
  | chore {q : Panel L μ} (h : Chore p q) (henabled : q.pins.enabled = p.pins.enabled) :
    Move react admits p q

/-- What happens from one tick to the next. -/
abbrev Meanwhile (react : Reaction L μ) (admits : Operation L μ → Prop) :
    Panel L μ → Panel L μ → Prop :=
  Relation.ReflTransGen (Move react admits)

/-- Ticks, and what may happen between them. -/
abbrev Lives (react : Reaction L μ) (admits : Operation L μ → Prop) :
    Panel L μ → Panel L μ → Prop :=
  Relation.ReflTransGen fun p q => Move react admits p q ∨ q = (p.tick react).2

/-- What happens from one tick to the next, as far as its moves can be looked at one by one. -/
theorem Strand.meanwhile {R : Panel L μ → Panel L μ → Prop} {admits : Operation L μ → Prop}
    (h : Strand R) (hmove : ∀ {p q}, Move react admits p q → R p q)
    (hmeanwhile : Meanwhile react admits p q) : R p q := by
  induction hmeanwhile with
  | refl => exact h.refl p
  | tail _ hlast ih => exact h.trans ih (hmove hlast)

theorem Move.heeds (hreact : ∀ l n p, Heeds pin [] p (react l n p).2)
    (h : Move react (·.sparesWatch pin.name = true) p q) : Heeds pin [] p q := by
  cases h with
  | perform op hop => exact heeds_perform hreact hop p
  | chore h henabled => exact heeds_chore h henabled

theorem heeds_meanwhile (hreact : ∀ l n p, Heeds pin [] p (react l n p).2)
    (h : Meanwhile react (·.sparesWatch pin.name = true) p q) : Heeds pin [] p q :=
  heeds_strand.meanwhile (·.heeds hreact) h

theorem Move.holds {name : String} (hreact : ∀ l n p, Holds name p (react l n p).2)
    (h : Move react (·.sparesValue name = true) p q) : Holds name p q := by
  cases h with
  | perform op hop => exact holds_perform hreact hop p
  | chore h _ => exact holds_of_store h.store_eq

theorem holds_meanwhile {name : String} (hreact : ∀ l n p, Holds name p (react l n p).2)
    (h : Meanwhile react (·.sparesValue name = true) p q) : Holds name p q :=
  holds_walk.strand.meanwhile (·.holds hreact) h

end Panel

/-- The operation starts the clock of the pin watcher. -/
def Operation.startsWatchClock {L μ : Type} : Operation L μ → Bool
  | enablePins _ => true
  | _ => false

namespace Panel

variable {L μ : Type} {p q r : Panel L μ} {react : Reaction L μ} {pin : Handle}

/-- The pin watcher has no alarm set: it makes no passes of its own. -/
def Dormant (p : Panel L μ) : Prop :=
  p.pins.clock.alarm = none

/-- Nothing that listeners do starts the clock of the pin watcher. -/
def LeavesClock (conduct : Conduct L μ) : Prop :=
  ∀ l n p, (conduct l n p).All (fun _ op => op.startsWatchClock = false) p

theorem dormant_of_clock (h : q.pins.clock = p.pins.clock) (hp : p.Dormant) : q.Dormant := by
  rw [Dormant, h]
  exact hp

theorem dormant_perform (hreact : ∀ l n (p : Panel L μ), p.Dormant → (react l n p).2.Dormant)
    {op : Operation L μ} (hop : op.startsWatchClock = false) (p : Panel L μ) (hp : p.Dormant) :
    (op.perform react p).Dormant := by
  have hsideways : Sideways react fun p q : Panel L μ => p.Dormant → q.Dormant :=
    { trans := fun h h' hp => h' (h hp)
      aside := fun h => dormant_of_clock h.clock
      reaction := hreact }
  refine hsideways.perform op p (fun hapart hp => ?_) hp
  cases op with
  | drivePin name value => exact dormant_of_clock (by rw [Operation.perform, pins_keepStore]) hp
  | removePin name => exact hp
  | disablePins =>
    rw [Dormant, Operation.perform, pins_disablePins]
    exact hp
  | setPinsEnabled enabled =>
    rw [Dormant, Operation.perform, pins_setPinsEnabled]
    exact hp
  | enablePins driven => cases hop
  | _ => cases hapart

theorem dormant_react {conduct : Conduct L μ} (h : LeavesClock conduct) (depth : Nat) (l : L)
    (n : Notice) (p : Panel L μ) (hp : p.Dormant) : (conduct.react depth l n p).2.Dormant := by
  have hstrand : Strand fun p q : Panel L μ => p.Dormant → q.Dormant :=
    ⟨fun _ hp => hp, fun h h' hp => h' (h hp), fun _ _ _ hp => hp⟩
  exact hstrand.reaction h (fun hreact _ p hop => dormant_perform hreact hop p) depth l n p hp

/-- From a dormant panel on, a life that ends with a dormant panel. -/
def LivesOn (react : Reaction L μ) (name : String) (p q : Panel L μ) : Prop :=
  p.Dormant → q.Dormant ∧ Lives react (·.sparesWatch name = true) p q

theorem livesOn_strand (name : String) : Strand (LivesOn (L := L) (μ := μ) react name) where
  refl p hp := ⟨hp, .refl⟩
  trans h h' hp := by
    obtain ⟨hq, hlife⟩ := h hp
    obtain ⟨hr, hlife'⟩ := h' hq
    exact ⟨hr, hlife.trans hlife'⟩
  note p n hn hp := ⟨hp, .single (.inl (.chore (.note n hn) rfl))⟩

theorem livesOn_setClock {name : String} (p : Panel L μ) {t : Timekeeper} (ht : t ≠ .pins)
    (c : Clock Unit) : LivesOn react name p (p.setClock t c) := by
  intro hp
  have haside := aside_setClock p ht c
  exact ⟨dormant_of_clock haside.clock hp, .single (.inl (.chore (.clock t c) haside.enabled))⟩

section

variable (hreact : ∀ l n (p : Panel L μ), p.Dormant → (react l n p).2.Dormant) {name : String}
include hreact

theorem livesOn_perform (op : Operation L μ)
    (hop : (op.sparesWatch name = true ∧ op.startsWatchClock = false) ∨ op = .tick)
    (p : Panel L μ) : LivesOn react name p (op.perform react p) := by
  intro hp
  rcases hop with ⟨hspares, hclock⟩ | rfl
  · exact ⟨dormant_perform hreact hclock p hp, .single (.inl (.perform op hspares))⟩
  · have htick : (Operation.perform react .tick p).Dormant := dormant_perform hreact rfl p hp
    exact ⟨htick, .single (.inr rfl)⟩

/-- The alarm of a clock goes off; that of the pin watcher is not set. -/
theorem livesOn_fire (p : Panel L μ) (t : Timekeeper) : LivesOn react name p (p.fire react t) := by
  by_cases ht : t = .pins
  · subst ht
    intro hp
    have hfire : p.fire react .pins = p := by
      have halarm : (p.clock .pins).alarm = none := hp
      rw [fire, halarm]
    rw [hfire]
    exact ⟨hp, .refl⟩
  · refine (livesOn_strand name).fire (fun q c => livesOn_setClock q ht c) (fun q => ?_) p
    cases t with
    | pins => exact absurd rfl ht
    | status => exact livesOn_perform hreact .updateStatus (.inl ⟨rfl, rfl⟩) q
    | driver => exact livesOn_perform hreact .tick (.inr rfl) q

end

/-- **With the clock of the pin watcher at rest, a run is a life**, whether ticks are asked for
or the clock of the driver makes them. -/
theorem lives_run {conduct : Conduct L μ} (hconduct : LeavesClock conduct) (depth : Nat)
    {name : String} {steps : List (Step L μ)}
    (hsteps : ∀ op, .operation op ∈ steps →
      (op.sparesWatch name = true ∧ op.startsWatchClock = false) ∨ op = .tick)
    {p : Panel L μ} (hp : p.Dormant) :
    Lives (conduct.react depth) (·.sparesWatch name = true) p
      (p.run (conduct.react depth) steps) := by
  have hreact := dormant_react hconduct depth
  have hadvance : ∀ (q : Panel L μ) ms,
      LivesOn (conduct.react depth) name q (q.advance (conduct.react depth) ms) := fun q ms =>
    (livesOn_strand name).advanceTo
      (fun r now hr => ⟨hr, .single (.inl (.chore (.now now) rfl))⟩) (livesOn_fire hreact) _ _ q
  have hrun := (livesOn_strand name).run (fun hop => livesOn_perform hreact _ hop _) hadvance steps
    (fun op hop _ => hsteps op hop) p
  exact (hrun hp).2

end Panel

end MachinePanel
