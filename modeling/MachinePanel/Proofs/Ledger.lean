/-
Ledgers. A ledger is a way to go through a history. It keeps a state, which
each happening may change, and says what a happening requires of everything
that comes after it. That speaks of what belongs to the happening, so it stays
settled when more comes that belongs to others.

An account ties a ledger to the panel, on which its state can be seen.
`Account.Holds` says that from one panel to another the state changes as the
ledger has it, and that everything is settled.
-/
import MachinePanel.Proofs.History

namespace MachinePanel

/-- A way to go through a history. -/
structure Ledger (L σ : Type) where
  /-- The state after a happening. -/
  enter : σ → Happening L → σ
  /-- What a happening requires, given the state before it, its number, and what came after. -/
  requires : σ → Nat → Happening L → List (Happening L) → Prop
  requires_append : ∀ {s number x l₁ l₂}, requires s number x l₁ → Foreign number l₂ →
    requires s number x (l₁ ++ l₂)

namespace Ledger

variable {L σ : Type} {ledger : Ledger L σ} {base : Nat} {s : σ} {l l₁ l₂ : List (Happening L)}

/-- The state after what happened. -/
def after (ledger : Ledger L σ) (s : σ) (happenings : List (Happening L)) : σ :=
  happenings.foldl ledger.enter s

@[simp] theorem after_nil : ledger.after s [] = s := rfl

@[simp] theorem after_cons (x : Happening L) :
    ledger.after s (x :: l) = ledger.after (ledger.enter s x) l := rfl

@[simp] theorem after_append :
    ledger.after s (l₁ ++ l₂) = ledger.after (ledger.after s l₁) l₂ :=
  List.foldl_append

/-- Everything that is required has come, in happenings the first of which has
the number `base` and finds the state `s`. -/
def Settled (ledger : Ledger L σ) (base : Nat) (s : σ) (happenings : List (Happening L)) : Prop :=
  ∀ i x, happenings[i]? = some x →
    ledger.requires (ledger.after s (happenings.take i)) (base + i) x (happenings.drop (i + 1))

theorem settled_nil : ledger.Settled base s [] := by
  intro i x hi
  simp at hi

theorem Settled.cons {x : Happening L} (hx : ledger.requires s base x l)
    (h : ledger.Settled (base + 1) (ledger.enter s x) l) : ledger.Settled base s (x :: l) := by
  intro i y hi
  cases i with
  | zero =>
    obtain rfl : x = y := by simpa using hi
    exact hx
  | succ i =>
    have hy := h i y (by simpa using hi)
    rwa [Nat.add_assoc, Nat.add_comm 1 i] at hy

theorem Settled.head {x : Happening L} (h : ledger.Settled base s (x :: l)) :
    ledger.requires s base x l :=
  h 0 x rfl

theorem Settled.tail {x : Happening L} (h : ledger.Settled base s (x :: l)) :
    ledger.Settled (base + 1) (ledger.enter s x) l := by
  intro i y hi
  have hy := h (i + 1) y (by simpa using hi)
  rwa [Nat.add_assoc, Nat.add_comm 1 i]

/-- What comes later is settled as well, from the state it finds. -/
theorem Settled.drop (h : ledger.Settled base s l) (i : Nat) :
    ledger.Settled (base + i) (ledger.after s (l.take i)) (l.drop i) := by
  induction i generalizing base s l with
  | zero => exact h
  | succ i ih =>
    cases l with
    | nil => exact settled_nil
    | cons x l =>
      have hrest := ih h.tail
      rwa [Nat.add_assoc, Nat.add_comm 1 i] at hrest

theorem Settled.append (h₁ : ledger.Settled base s l₁)
    (h₂ : ledger.Settled (base + l₁.length) (ledger.after s l₁) l₂)
    (hf : ∀ h ∈ l₂, ∀ n, h.subject? = some n → n < base ∨ base + l₁.length ≤ n) :
    ledger.Settled base s (l₁ ++ l₂) := by
  intro i x hi
  rcases Nat.lt_or_ge i l₁.length with hlt | hge
  · rw [List.getElem?_append_left hlt] at hi
    rw [List.take_append_of_le_length (Nat.le_of_lt hlt), List.drop_append_of_le_length hlt]
    refine ledger.requires_append (h₁ i x hi) fun y hy hn => ?_
    rcases hf y hy _ hn with h | h <;> omega
  · rw [List.getElem?_append_right hge] at hi
    obtain ⟨k, rfl⟩ := Nat.exists_eq_add_of_le hge
    rw [Nat.add_sub_cancel_left] at hi
    have hx := h₂ k x hi
    rwa [List.take_length_add_append, after_append, Nat.add_assoc, List.drop_length_add_append,
      ← Nat.add_assoc]

/-- A happening the ledger passes over. -/
structure Ignores (ledger : Ledger L σ) (x : Happening L) : Prop where
  enter : ∀ s, ledger.enter s x = s
  requires : ∀ s n l, ledger.requires s n x l

end Ledger

/-- A ledger whose state can be seen on the panel. -/
structure Account (L μ σ : Type) extends Ledger L σ where
  view : Panel L μ → σ
  view_quiet : ∀ {p q}, p.Quiet q → view q = view p
  view_record : ∀ p x, view (p.record x) = view p

namespace Account

open Panel

variable {L μ σ : Type} {A : Account L μ σ} {underway more : List Nat} {p q r : Panel L μ}
  {react : Reaction L μ}

/-- From `p` to `q` the view changes as the ledger has it, and everything is settled. -/
structure Holds (A : Account L μ σ) (underway : List Nat) (p q : Panel L μ) : Prop where
  grows : Grows underway p q
  view : A.view q = A.after (A.view p) (since p q)
  settled : (∀ n ∈ underway, n < p.past.length) →
    A.Settled p.past.length (A.view p) (since p q)

theorem Holds.mono (h : A.Holds underway p q) (hsub : ∀ n ∈ underway, n ∈ more) :
    A.Holds more p q where
  grows := h.grows.mono fun n hn => .inl (hsub n hn)
  view := h.view
  settled hu := h.settled fun n hn => hu n (hsub n hn)

theorem holds_still (underway : List Nat) (hpast : q.past = p.past) (hview : A.view q = A.view p) :
    A.Holds underway p q := by
  have hsince : since p q = [] := since_eq (by rw [hpast, List.append_nil])
  refine ⟨⟨[], by simp [hpast], by simp⟩, ?_, fun _ => ?_⟩
  · rw [hsince, hview, Ledger.after_nil]
  · rw [hsince]
    exact Ledger.settled_nil

theorem Holds.trans (h : A.Holds underway p q) (h' : A.Holds underway q r) :
    A.Holds underway p r := by
  refine ⟨(grows_course underway).trans h.grows h'.grows, ?_, fun hu => ?_⟩
  · rw [h'.view, h.view, h.grows.since_trans h'.grows, Ledger.after_append]
  · rw [h.grows.since_trans h'.grows]
    have hu' := fun n hn => Nat.lt_of_lt_of_le (hu n hn) h.grows.length_le
    refine (h.settled hu).append ?_ fun x hx n hn => ?_
    · have hs := h'.settled hu'
      rwa [h.grows.length_eq, h.view] at hs
    · rw [← h.grows.length_eq]
      exact (h'.grows.subject x hx n hn).imp (hu n) id

theorem holds_course (A : Account L μ σ) (underway : List Nat) :
    Course (A.Holds underway) where
  refl _ := holds_still _ rfl rfl
  trans := Holds.trans
  quiet h := holds_still _ h.past (A.view_quiet h)

/-- What belongs to a happening comes after it, and settles what it requires. -/
theorem holds_enclose {x : Happening L} (hpast : q.past = p.past ++ [x])
    (hview : A.view q = A.enter (A.view p) x) (hx : ∀ n, x.subject? = some n → n ∈ underway)
    (hrequires : A.requires (A.view p) p.past.length x (since q r))
    (h : A.Holds (p.past.length :: underway) q r) : A.Holds underway p r := by
  have hlen : q.past.length = p.past.length + 1 := by simp [hpast]
  have hsince : since p r = x :: since q r :=
    since_eq (by rw [h.grows.past_eq, hpast, List.append_assoc]; rfl)
  refine ⟨h.grows.enclose hpast hx, ?_, fun hu => ?_⟩
  · rw [h.view, hview, hsince, Ledger.after_cons]
  · rw [hsince]
    refine Ledger.Settled.cons hrequires ?_
    have hs := h.settled fun n hn => by
      rcases List.mem_cons.1 hn with rfl | hn
      · omega
      · have := hu n hn
        omega
    rwa [hlen, hview] at hs

/-- A step with one happening. -/
theorem holds_single {x : Happening L} (hpast : q.past = p.past ++ [x])
    (hview : A.view q = A.enter (A.view p) x) (hx : ∀ n, x.subject? = some n → n ∈ underway)
    (hrequires : A.requires (A.view p) p.past.length x []) : A.Holds underway p q := by
  refine holds_enclose hpast hview hx ?_ (holds_still _ rfl rfl)
  rwa [(Quiet.refl q).since]

theorem holds_record {x : Happening L} (hx : A.Ignores x)
    (hs : ∀ n, x.subject? = some n → n ∈ underway) (p : Panel L μ) :
    A.Holds underway p (p.record x) :=
  holds_single (past_record p x) (by rw [A.view_record, hx.enter]) hs (hx.requires _ _ _)

/-- What an account that is permanent says of a whole run. -/
theorem run_settled (hA : Permanent (A.Holds [])) (conduct : Conduct L μ) (depth : Nat)
    (setup : Setup) (memory : μ) (steps : List (Step L μ)) :
    let start : Panel L μ := Panel.new setup memory
    let p := start.run (conduct.react depth) steps
    A.Settled 0 (A.view start) p.past ∧ A.view p = A.after (A.view start) p.past := by
  intro start p
  have h : A.Holds [] start p := hA.run conduct depth steps start
  have hpast : start.past = [] := past_new setup memory
  have hsince : since start p = p.past := since_eq (by rw [hpast, List.nil_append])
  have hsettled := h.settled (by simp)
  have hview := h.view
  rw [hsince] at hview
  rw [hsince, hpast] at hsettled
  exact ⟨hsettled, hview⟩

/-- The ledger passes over emissions and what belongs to them. -/
structure IgnoresEmissions (A : Account L μ σ) : Prop where
  emission : ∀ cause channel name notice, A.Ignores (.emission cause channel name notice)
  call : ∀ n s notice, A.Ignores (.call n s notice)
  callEnd : ∀ n s completion, A.Ignores (.callEnd n s completion)
  emissionEnd : ∀ n delivered, A.Ignores (.emissionEnd n delivered)

theorem IgnoresEmissions.emit (hA : A.IgnoresEmissions)
    (hreact : ∀ l n p, A.Holds [] p (react l n p).2) (p : Panel L μ) (cause : Cause)
    (channel : Channel) (name : String) (notice : Notice) :
    A.Holds cause.subject?.toList p (p.emit react cause channel name notice).2 := by
  rw [emit_eq]
  have hbegin := hA.emission cause channel name notice
  refine holds_enclose (past_record p _) ?_ (by simp [Happening.subject?])
    (hbegin.requires _ _ _) ?_
  · rw [A.view_record, hbegin.enter]
  · refine (A.holds_course _).strand.serve (fun l n q => (hreact l n q).mono (by simp))
      ?_ ?_ ?_ name _ _
    · exact fun q s => holds_record (hA.call _ s notice) (by simp [Happening.subject?]) q
    · exact fun q s c => holds_record (hA.callEnd _ s c) (by simp [Happening.subject?]) q
    · exact fun q n => holds_record (hA.emissionEnd _ n) (by simp [Happening.subject?]) q

/-- The account has nothing to do with buses: the ledger passes over all that
happens on them, and they do not show in the view. -/
structure IgnoresBuses (A : Account L μ σ) : Prop where
  emission : ∀ cause channel name notice, A.Ignores (.emission cause channel name notice)
  call : ∀ n s notice, A.Ignores (.call n s notice)
  callEnd : ∀ n s completion, A.Ignores (.callEnd n s completion)
  emissionEnd : ∀ n delivered, A.Ignores (.emissionEnd n delivered)
  subscribed : ∀ channel s, A.Ignores (.subscribed channel s)
  unsubscribed : ∀ channel id, A.Ignores (.unsubscribed channel id)
  cleared : ∀ channel, A.Ignores (.cleared channel)
  view_setBus : ∀ p channel bus, A.view (p.setBus channel bus) = A.view p

namespace IgnoresBuses

theorem emit (hA : A.IgnoresBuses) (hreact : ∀ l n p, A.Holds [] p (react l n p).2)
    (p : Panel L μ) (cause : Cause) (channel : Channel) (name : String) (notice : Notice) :
    A.Holds cause.subject?.toList p (p.emit react cause channel name notice).2 :=
  IgnoresEmissions.emit ⟨hA.emission, hA.call, hA.callEnd, hA.emissionEnd⟩ hreact p cause channel
    name notice

theorem emitAll (hA : A.IgnoresBuses) (hreact : ∀ l n p, A.Holds [] p (react l n p).2)
    (cause : Cause) (channel : Channel) (notices : List (String × Notice)) (p : Panel L μ) :
    A.Holds cause.subject?.toList p (p.emitAll react cause channel notices) :=
  (A.holds_course _).strand.emitAll (fun n _ p => hA.emit hreact p cause channel n.1 n.2) p

/-- A step that changes a bus. -/
theorem setBus (hA : A.IgnoresBuses) {x : Happening L} (hx : A.Ignores x)
    (hs : x.subject? = none) (channel : Channel) (bus : Bus L) (p : Panel L μ) :
    A.Holds [] p ((p.setBus channel bus).record x) := by
  have hset : A.Holds [] p (p.setBus channel bus) :=
    holds_still [] (past_setBus p channel bus) (hA.view_setBus p channel bus)
  exact hset.trans (holds_record hx (by simp [hs]) _)

theorem subscribe (hA : A.IgnoresBuses) (p : Panel L μ) (channel : Channel) (filter : Filter)
    (listener : L) : A.Holds [] p (p.subscribe channel filter listener).2 :=
  (hA.setBus (hA.subscribed _ _) rfl channel _ p).trans
    ((A.holds_course []).quiet (quiet_note _ _))

theorem unsubscribe (hA : A.IgnoresBuses) (p : Panel L μ) (channel : Channel) (id : Nat) :
    A.Holds [] p (p.unsubscribe channel id).2 := by
  have hset :=
    hA.setBus (hA.unsubscribed channel id) rfl channel ((p.bus channel).unsubscribe id).2 p
  simp only [Panel.unsubscribe]
  split
  · exact hset.trans ((A.holds_course []).quiet (quiet_note _ _))
  · exact hset

theorem clear (hA : A.IgnoresBuses) (p : Panel L μ) (channel : Channel) :
    A.Holds [] p (p.clear channel) :=
  hA.setBus (hA.cleared channel) rfl channel _ p

/-- For such an account only what happens to pins is left to look at. -/
theorem steady (hA : A.IgnoresBuses) (hreact : ∀ l n p, A.Holds [] p (react l n p).2)
    (hregister : ∀ p pin, A.Holds [] p (p.register pin))
    (hunregister : ∀ p name, A.Holds [] p (p.unregister name).2)
    (hpollPins : ∀ p, A.Holds [] p (p.pollPins react).2) : Steady react (A.Holds []) where
  toCourse := A.holds_course []
  subscribe := hA.subscribe
  unsubscribe := hA.unsubscribe
  clear := hA.clear
  register := hregister
  unregister := hunregister
  pollPins := hpollPins
  emit p channel name notice := hA.emit hreact p .request channel name notice
  requestReload p := hA.emitAll hreact .reload .status _ p

end IgnoresBuses

/-- The account has to do with buses only: nothing else shows in the view, and
the ledger passes over all that happens elsewhere. -/
structure OfBuses (A : Account L μ σ) : Prop where
  view_eq : ∀ {p q : Panel L μ}, q.bus = p.bus → A.view q = A.view p
  polled : ∀ answer policy, A.Ignores (.polled answer policy)
  pass : ∀ readings, A.Ignores (.pass readings)
  passEnd : ∀ n changed, A.Ignores (.passEnd n changed)
  registered : ∀ serial pin, A.Ignores (.registered serial pin)
  unregistered : ∀ name, A.Ignores (.unregistered name)

namespace OfBuses

/-- A step with one happening that leaves the buses alone. -/
theorem aside (hA : A.OfBuses) {x : Happening L} (hx : A.Ignores x) (hs : x.subject? = none)
    (hpast : q.past = p.past ++ [x]) (hbus : q.bus = p.bus) : A.Holds [] p q :=
  holds_single hpast (by rw [hA.view_eq hbus, hx.enter]) (by simp [hs]) (hx.requires _ _ _)

theorem pollPins (hA : A.OfBuses)
    (hemit : ∀ (p : Panel L μ) cause channel name notice,
      A.Holds cause.subject?.toList p (p.emit react cause channel name notice).2)
    (p : Panel L μ) : A.Holds [] p (p.pollPins react).2 := by
  rw [pollPins_snd]
  have hpass := hA.pass (WatchPass.run p.store p.pins.list).readings
  refine holds_enclose (past_readPins p) ?_ (by simp [Happening.subject?])
    (hpass.requires _ _ _) ((A.holds_course _).strand.finishPass ?_ ?_ _ _)
  · rw [hpass.enter]
    exact hA.view_eq (funext fun c => by cases c <;> rfl)
  · exact fun q name => hemit q (.pass p.past.length) .pins name _
  · exact fun q n => holds_record (hA.passEnd _ n) (by simp [Happening.subject?]) q

theorem updateStatus (hA : A.OfBuses)
    (hemit : ∀ (p : Panel L μ) cause channel name notice,
      A.Holds cause.subject?.toList p (p.emit react cause channel name notice).2)
    (p : Panel L μ) : A.Holds [] p (p.updateStatus react) := by
  rw [updateStatus_eq]
  have hpolled := hA.polled p.pollSource.1 p.status.policy
  refine holds_enclose (past_pollSource p) ?_ (by simp [Happening.subject?])
    (hpolled.requires _ _ _) ?_
  · rw [hpolled.enter]
    exact hA.view_eq (funext fun c => by cases c <;> rfl)
  · split
    · refine (A.holds_course _).strand.acceptSnapshot ?_ ?_ _ _
      · exact fun q s => holds_still _ rfl (hA.view_eq (funext fun c => by cases c <;> rfl))
      · exact fun q e => hemit q (.update p.past.length) .status e.name _
    · exact (A.holds_course _).quiet (quiet_note _ _)

/-- For such an account only what happens to buses is left to look at. -/
theorem permanent (hA : A.OfBuses)
    (hemit : ∀ {react : Reaction L μ}, (∀ l n p, A.Holds [] p (react l n p).2) →
      ∀ (p : Panel L μ) cause channel name notice,
        A.Holds cause.subject?.toList p (p.emit react cause channel name notice).2)
    (hsubscribe : ∀ p channel filter listener,
      A.Holds [] p (p.subscribe channel filter listener).2)
    (hunsubscribe : ∀ p channel id, A.Holds [] p (p.unsubscribe channel id).2)
    (hclear : ∀ p channel, A.Holds [] p (p.clear channel)) : Permanent (A.Holds []) where
  toCourse := A.holds_course []
  updateStatus hreact := hA.updateStatus (hemit hreact)
  steady hreact :=
    { toCourse := A.holds_course []
      subscribe := hsubscribe
      unsubscribe := hunsubscribe
      clear := hclear
      register := fun p pin => hA.aside (hA.registered _ _) rfl (past_register p pin)
        (funext fun c => by cases c <;> rfl)
      unregister := fun p name => hA.aside (hA.unregistered _) rfl (past_unregister p name)
        (funext fun c => by cases c <;> rfl)
      pollPins := hA.pollPins (hemit hreact)
      emit := fun p channel name notice => hemit hreact p .request channel name notice
      requestReload := fun p => (A.holds_course _).strand.emitAll
        (fun n _ q => hemit hreact q .reload .status n.1 n.2) p }

end OfBuses

end Account

end MachinePanel
