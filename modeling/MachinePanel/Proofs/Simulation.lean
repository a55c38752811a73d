/-
Two runs side by side, with listeners that do the same in both. A relation between
panels that holds side by side as long as both do the same (`Simulation`) holds
all along, provided that it holds after updates of the status and that the
listeners do the same on panels it relates (`Simulation.run`). As in a single
run, the induction is on how deep emissions nest.

Panels that are related differ in their books at most.
-/
import MachinePanel.Proofs.Tandem

namespace MachinePanel

variable {L μ : Type}

/-! ## Side by side -/

/-- Causes that differ at most in a number. The emissions of updates are not among them. -/
inductive Cause.Same (N : Nat → Nat → Prop) : Cause → Cause → Prop where
  | request : Same N .request .request
  | reload : Same N .reload .reload
  | pass {m n : Nat} (h : N m n) : Same N (.pass m) (.pass n)

/-- Happenings that differ at most in the number of what they belong to. Polls
are not among them. -/
inductive Happening.Same (N : Nat → Nat → Prop) : Happening L → Happening L → Prop where
  | registered (serial : Nat) (pin : Handle) :
    Same N (.registered serial pin) (.registered serial pin)
  | unregistered (name : String) : Same N (.unregistered name) (.unregistered name)
  | pass (readings : List Reading) : Same N (.pass readings) (.pass readings)
  | passEnd {m n : Nat} (h : N m n) (changed : Nat) :
    Same N (.passEnd m changed) (.passEnd n changed)
  | emission {c c' : Cause} (h : c.Same N c') (channel : Channel) (name : String)
    (notice : Notice) :
    Same N (.emission c channel name notice) (.emission c' channel name notice)
  | call {m n : Nat} (h : N m n) (s : Subscription L) (notice : Notice) :
    Same N (.call m s notice) (.call n s notice)
  | callEnd {m n : Nat} (h : N m n) (s : Subscription L) (completion : Completion) :
    Same N (.callEnd m s completion) (.callEnd n s completion)
  | emissionEnd {m n : Nat} (h : N m n) (delivered : Nat) :
    Same N (.emissionEnd m delivered) (.emissionEnd n delivered)
  | subscribed (channel : Channel) (s : Subscription L) :
    Same N (.subscribed channel s) (.subscribed channel s)
  | unsubscribed (channel : Channel) (id : Nat) :
    Same N (.unsubscribed channel id) (.unsubscribed channel id)
  | cleared (channel : Channel) : Same N (.cleared channel) (.cleared channel)

namespace Panel

/-- A relation between panels that differ in their books at most. It holds on
when the same is recorded in both, and when the same is done to both that
touches neither the history nor the snapshot kept. -/
structure Simulation (N : Nat → Nat → Prop) (S : Panel L μ → Panel L μ → Prop) : Prop where
  bare : ∀ {p q}, S p q → q.bare = p.bare
  number : ∀ {p q}, S p q → N p.past.length q.past.length
  record : ∀ {p q x y}, S p q → x.Same N y → S (p.record x) (q.record y)
  still : ∀ {p q} {f : Panel L μ → Panel L μ}, Unread f →
    (∀ r, (f r).past = r.past ∧ (f r).status.cached = r.status.cached) → S p q → S (f p) (f q)

/-- The same result, and panels that are related. -/
def Abreast {α : Type} (S : Panel L μ → Panel L μ → Prop) (r r' : α × Panel L μ) : Prop :=
  r'.1 = r.1 ∧ S r.2 r'.2

/-- On related panels both reactions do the same. -/
def Follows (S : Panel L μ → Panel L μ → Prop) (react react' : Reaction L μ) : Prop :=
  ∀ l n p q, S p q → Abreast S (react l n p) (react' l n q)

namespace Simulation

variable {N : Nat → Nat → Prop} {S : Panel L μ → Panel L μ → Prop} {p q : Panel L μ}
  {react react' : Reaction L μ}

section

variable (h : Simulation N S)
include h

theorem quiet {f : Panel L μ → Panel L μ} (hunread : Unread f) (hquiet : ∀ r, Quiet r (f r))
    (hS : S p q) : S (f p) (f q) :=
  h.still hunread (fun r => ⟨(hquiet r).past, (hquiet r).cached⟩) hS

theorem note (n : Note) (hS : S p q) : S (p.note n) (q.note n) :=
  h.quiet (f := fun r => r.note n) (fun _ => rfl) (fun r => quiet_note r n) hS

theorem setBus (channel : Channel) (bus : Bus L) (hS : S p q) :
    S (p.setBus channel bus) (q.setBus channel bus) := by
  refine h.still (f := fun r => r.setBus channel bus) ?_ (fun r => ⟨past_setBus r _ _, ?_⟩) hS
  · intro r
    cases channel <;> rfl
  · cases channel <;> rfl

/-- What goes by neither the books nor the watch list and the memory is the same on both. -/
theorem same {α : Type} (f : Panel L μ → α)
    (hf : ∀ list memory r, f (guise list memory r) = f r) (hS : S p q) : f q = f p := by
  have hbare : q.bare = p.bare := h.bare hS
  rw [← hf id id q, ← hf id id p]
  exact congrArg f hbare

theorem bus_eq (hS : S p q) (channel : Channel) : q.bus channel = p.bus channel :=
  h.same (·.bus channel) (fun list memory r => bus_guise list memory r channel) hS

theorem store_eq (hS : S p q) : q.store = p.store :=
  h.same (·.store) (fun _ _ _ => rfl) hS

theorem status_eq (hS : S p q) : q.status = p.status :=
  h.same (·.status) (fun _ _ _ => rfl) hS

theorem pins_eq (hS : S p q) : q.pins = p.pins :=
  congrArg (·.pins) (h.bare hS)

/-! ### Emissions -/

theorem call (hreact : Follows S react react') {m n : Nat} (hn : N m n) (notice : Notice)
    (s : Subscription L) (hS : S p q) :
    Abreast S (p.call react m notice s) (q.call react' n notice s) := by
  obtain ⟨hcompletion, hS'⟩ := hreact s.listener notice _ _ (h.record hS (.call hn s notice))
  refine ⟨hcompletion, ?_⟩
  simp only [Panel.call, hcompletion]
  exact h.record hS' (.callEnd hn s _)

omit h in
theorem deliver {call call' : Subscription L → Panel L μ → Completion × Panel L μ}
    {onPanic : Option String → Panel L μ → Panel L μ}
    (hcall : ∀ s p q, S p q → Abreast S (call s p) (call' s q))
    (hpanic : ∀ m p q, S p q → S (onPanic m p) (onPanic m q))
    (subscribers : List (Subscription L)) (hS : S p q) :
    Abreast S (Bus.deliver call onPanic subscribers p)
      (Bus.deliver call' onPanic subscribers q) := by
  induction subscribers generalizing p q with
  | nil => exact ⟨rfl, hS⟩
  | cons s rest ih =>
    obtain ⟨hcompletion, hS'⟩ := hcall s p q hS
    rw [Bus.deliver, Bus.deliver]
    rcases hp : call s p with ⟨completion, p'⟩
    rcases hq : call' s q with ⟨completion', q'⟩
    rw [hp, hq] at hcompletion hS'
    obtain rfl : completion' = completion := hcompletion
    cases completion' with
    | returned =>
      obtain ⟨hcount, hrest⟩ := ih hS'
      exact ⟨congrArg (· + 1) hcount, hrest⟩
    | panicked message => exact ih (hpanic message p' q' hS')

theorem serve (hreact : Follows S react react') {m n : Nat} (hn : N m n) (name : String)
    (notice : Notice) (recipients : List (Subscription L)) (hS : S p q) :
    Abreast S (p.serve react m name notice recipients)
      (q.serve react' n name notice recipients) := by
  have hpanic : ∀ message p q, S p q →
      S (p.note (.listenerPanicked name message)) (q.note (.listenerPanicked name message)) :=
    fun message p q hS => h.note (.listenerPanicked name message) hS
  obtain ⟨hcount, hS'⟩ :=
    deliver (fun s p q hS => h.call hreact hn notice s hS) hpanic recipients hS
  refine ⟨hcount, ?_⟩
  simp only [Panel.serve, hcount]
  exact h.record hS' (.emissionEnd hn _)

/-- An emission, if it begins on both sides. -/
theorem emit (hreact : Follows S react react') {c c' : Cause} {channel : Channel} {name : String}
    {notice : Notice} (hS : S p q)
    (hbegin : S (p.record (.emission c channel name notice))
      (q.record (.emission c' channel name notice))) :
    Abreast S (p.emit react c channel name notice) (q.emit react' c' channel name notice) := by
  rw [emit_eq, emit_eq, h.bus_eq hS]
  exact h.serve hreact (h.number hS) name notice _ hbegin

theorem emitAll (hreact : Follows S react react') {c c' : Cause} {channel : Channel}
    {notices : List (String × Notice)}
    (hbegin : ∀ n ∈ notices, ∀ p q, S p q → S (p.record (.emission c channel n.1 n.2))
      (q.record (.emission c' channel n.1 n.2)))
    (hS : S p q) : S (p.emitAll react c channel notices) (q.emitAll react' c' channel notices) := by
  unfold Panel.emitAll
  induction notices generalizing p q with
  | nil => exact hS
  | cons n rest ih =>
    have hemit := h.emit hreact hS (hbegin n (by simp) p q hS)
    exact ih (fun m hm => hbegin m (by simp [hm])) hemit.2

theorem emitAll_same (hreact : Follows S react react') {c c' : Cause} (hc : c.Same N c')
    (channel : Channel) (notices : List (String × Notice)) (hS : S p q) :
    S (p.emitAll react c channel notices) (q.emitAll react' c' channel notices) :=
  h.emitAll hreact (fun n _ _ _ hS => h.record hS (.emission hc channel n.1 n.2)) hS

/-! ### Passes -/

theorem readPins (hS : S p q) : Abreast S p.readPins q.readPins := by
  have hpass : WatchPass.run q.store q.pins.list = WatchPass.run p.store p.pins.list := by
    rw [h.store_eq hS, h.pins_eq hS]
  refine ⟨hpass, ?_⟩
  simp only [Panel.readPins, hpass]
  refine h.quiet (f := fun r => r.noteAll _) (fun _ => rfl) (fun _ => rfl)
    (h.record (h.still (f := fun r => { r with pins := { r.pins with list := _ } }) ?_ ?_ hS)
      (.pass _))
  · exact fun _ => rfl
  · exact fun _ => ⟨rfl, rfl⟩

theorem pollPins (hreact : Follows S react react') (hS : S p q) :
    Abreast S (p.pollPins react) (q.pollPins react') := by
  obtain ⟨hpass, hread⟩ := h.readPins hS
  refine ⟨by simp only [Panel.pollPins, hpass], ?_⟩
  rw [pollPins_snd, pollPins_snd, hpass]
  unfold finishPass
  have hnumber := h.number hS
  exact h.record (h.emitAll_same hreact (.pass hnumber) _ _ hread) (.passEnd hnumber _)

theorem requestReload (hreact : Follows S react react') (hS : S p q) :
    S (p.requestReload react) (q.requestReload react') :=
  h.emitAll_same hreact .reload _ _ hS

/-! ### Operations that emit nothing -/

theorem subscribe (channel : Channel) (filter : Filter) (listener : L) (hS : S p q) :
    S (p.subscribe channel filter listener).2 (q.subscribe channel filter listener).2 := by
  simp only [Panel.subscribe, h.bus_eq hS]
  exact h.note _ (h.record (h.setBus channel _ hS) (.subscribed channel _))

theorem unsubscribe (channel : Channel) (id : Nat) (hS : S p q) :
    S (p.unsubscribe channel id).2 (q.unsubscribe channel id).2 := by
  have hset := fun bus => h.record (h.setBus channel bus hS) (.unsubscribed channel id)
  simp only [Panel.unsubscribe, h.bus_eq hS]
  split
  · exact h.note _ (hset _)
  · exact hset _

theorem clear (channel : Channel) (hS : S p q) : S (p.clear channel) (q.clear channel) := by
  simp only [Panel.clear, h.bus_eq hS]
  exact h.record (h.setBus channel _ hS) (.cleared channel)

theorem register (pin : Handle) (hS : S p q) : S (p.register pin) (q.register pin) := by
  simp only [Panel.register, h.pins_eq hS]
  refine h.note _ (h.record ?_ (.registered _ pin))
  have hset : ∀ watcher : PinWatcher L, S { p with pins := watcher } { q with pins := watcher } :=
    fun watcher => h.still (f := fun r => { r with pins := watcher }) (fun _ => rfl)
      (fun _ => ⟨rfl, rfl⟩) hS
  exact hset _

theorem unregister (name : String) (hS : S p q) :
    S (p.unregister name).2 (q.unregister name).2 :=
  h.record (h.still (f := fun r => { r with pins := { r.pins with
    list := r.pins.list.filter (·.pin.name != name) } }) (fun _ => rfl) (fun _ => ⟨rfl, rfl⟩) hS)
    (.unregistered name)

theorem remember (change : μ → μ) (hS : S p q) :
    S { p with memory := change p.memory } { q with memory := change q.memory } :=
  h.quiet (f := fun r => { r with memory := change r.memory }) (fun _ => rfl) (fun _ => rfl) hS

/-! ### Runs -/

variable {update : Reaction L μ → Panel L μ → Panel L μ} (hreact : Follows S react react')
  (hupdate : ∀ p q, S p q → S (p.updateStatus react) (update react' q))
include hreact hupdate

theorem tandem : Tandem update react react' S where
  same f hf hS := h.same f hf hS
  quiet hunseen hquiet := h.quiet hunseen.unread hquiet
  register := h.register
  unregister := h.unregister
  subscribe := h.subscribe
  unsubscribe := h.unsubscribe
  clear := h.clear
  remember := h.remember
  pollPins hS := (h.pollPins hreact hS).2
  updateStatus := hupdate _ _
  requestReload := h.requestReload hreact
  emit channel name notice hS :=
    (h.emit hreact hS (h.record hS (.emission .request channel name notice))).2

/-- **What holds side by side as long as both do the same holds all along.** -/
theorem run (steps : List (Step L μ)) (hS : S p q) :
    S (p.run react steps) (q.runBy update react' steps) :=
  (h.tandem hreact hupdate).run steps hS

end

end Simulation

end Panel

/-! ## Listeners side by side -/

/-- Both plans carry out the same operations as long as the panels are related. -/
inductive Plan.Agrees (S : Panel L μ → Panel L μ → Prop) : Plan L μ → Plan L μ → Prop where
  | finish (completion : Completion) : Agrees S (.finish completion) (.finish completion)
  | perform (op : Operation L μ) {next next' : Panel L μ → Plan L μ}
    (h : ∀ p q, S p q → Agrees S (next p) (next' q)) :
    Agrees S (.perform op next) (.perform op next')

namespace Plan.Agrees

variable {S T : Panel L μ → Panel L μ → Prop} {plan plan' : Plan L μ}

theorem mono (hTS : ∀ p q, T p q → S p q) (h : plan.Agrees S plan') : plan.Agrees T plan' := by
  induction h with
  | finish completion => exact .finish completion
  | perform op _ ih => exact .perform op fun p q hT => ih p q (hTS p q hT)

theorem refl (hS : ∀ p q, S p q → q = p) (plan : Plan L μ) : plan.Agrees S plan := by
  induction plan with
  | finish completion => exact .finish completion
  | perform op next ih =>
    refine .perform op fun p q hpq => ?_
    obtain rfl : q = p := hS p q hpq
    exact ih q

end Plan.Agrees

namespace Panel.Simulation

variable {N : Nat → Nat → Prop} {S : Panel L μ → Panel L μ → Prop} {p q : Panel L μ}
  {react react' : Reaction L μ} {update : Reaction L μ → Panel L μ → Panel L μ}

theorem carryOut (h : Simulation N S) (hreact : Follows S react react')
    (hupdate : ∀ p q, S p q → S (p.updateStatus react) (update react' q)) {plan plan' : Plan L μ}
    (hplan : plan.Agrees S plan') (hS : S p q) :
    Abreast S (plan.carryOut react p) (plan'.carryOutBy update react' q) := by
  induction hplan generalizing p q with
  | finish completion => exact ⟨rfl, hS⟩
  | perform op _ ih =>
    have hop := (h.tandem hreact hupdate).perform op hS
    exact ih _ _ hop hop

/-- **On related panels the listeners do the same**, as deep as emissions nest. -/
theorem reaction (h : Simulation N S) {conduct conduct' : Conduct L μ}
    (hconduct : ∀ l n p q, S p q → (conduct l n p).Agrees S (conduct' l n q))
    (hupdate : ∀ depth, Follows S (conduct.react depth) (conduct'.reactBy update depth) →
      ∀ p q, S p q →
        S (p.updateStatus (conduct.react depth)) (update (conduct'.reactBy update depth) q))
    (depth : Nat) : Follows S (conduct.react depth) (conduct'.reactBy update depth) := by
  induction depth with
  | zero => exact fun _ _ _ _ hS => ⟨rfl, hS⟩
  | succ depth ih =>
    -- Whatever the plan of a listener emits calls listeners one level down.
    exact fun l n p q hS => h.carryOut ih (hupdate depth ih) (hconduct l n p q hS) hS

end Panel.Simulation

end MachinePanel
