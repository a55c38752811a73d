/-
How histories grow. A relation between panels that holds along operations holds
along every run (`Closed`). Most operations are quiet: they leave alone
everything the history speaks of (`Quiet`), and many of them do no more than
some chores (`Chore`). For a relation that holds along quiet steps the others
are shown one by one (`Steady`); `Steady.perform` and `Steady.run` put them
together, and `Lasting.reaction` closes the circle through the listeners, by
induction on how deep emissions nest. `Permanent.run` is what comes of it.

`Grows` is the first such relation: a run only adds to the history, and what
it adds refers to nothing that had begun before it.
-/
import MachinePanel.Proofs.Operation
import Mathlib.Logic.Relation

namespace MachinePanel

/-- The number of the poll or pass that leads to an emission. -/
def Cause.subject? : Cause → Option Nat
  | update n | pass n => some n
  | request | reload => none

/-- The number of the happening this one belongs to. -/
def Happening.subject? {L : Type} : Happening L → Option Nat
  | emission cause .. => cause.subject?
  | passEnd n _ | call n .. | callEnd n .. | emissionEnd n _ => some n
  | _ => none

/-- The note tells of a pin that could not be read or written. -/
def Note.isPinFailure : Note → Bool
  | pinDropped .. | updateFailed .. => true
  | _ => false

/-- Happenings that do not belong to the one of a number. -/
def Foreign {L : Type} (number : Nat) (happenings : List (Happening L)) : Prop :=
  ∀ h ∈ happenings, h.subject? ≠ some number

theorem Foreign.filterMap_eq_nil {L β : Type} {number : Nat} {f : Happening L → Option β}
    {l : List (Happening L)} (h : Foreign number l)
    (hf : ∀ x, x.subject? ≠ some number → f x = none) : l.filterMap f = [] :=
  List.filterMap_eq_nil_iff.2 fun x hx => hf x (h x hx)

namespace Panel

variable {L μ : Type} {p q r : Panel L μ} {react : Reaction L μ}
  {R : Panel L μ → Panel L μ → Prop}

/-- What has happened, the oldest first. -/
def past (p : Panel L μ) : List (Happening L) :=
  p.history.toList

@[simp] theorem past_record (p : Panel L μ) (h : Happening L) :
    (p.record h).past = p.past ++ [h] := by
  simp [past, record]

theorem size_history (p : Panel L μ) : p.history.size = p.past.length := by
  simp [past]

theorem past_note (p : Panel L μ) (n : Note) : (p.note n).past = p.past := rfl

theorem past_setBus (p : Panel L μ) (channel : Channel) (bus : Bus L) :
    (p.setBus channel bus).past = p.past := by
  cases channel <;> rfl

theorem past_subscribe (p : Panel L μ) (channel : Channel) (filter : Filter) (listener : L) :
    (p.subscribe channel filter listener).2.past =
      p.past ++ [.subscribed channel ⟨(p.bus channel).nextId, filter, listener⟩] := by
  simp only [subscribe, Bus.subscribe, past_note, past_record, past_setBus]

theorem past_unsubscribe (p : Panel L μ) (channel : Channel) (id : Nat) :
    (p.unsubscribe channel id).2.past = p.past ++ [.unsubscribed channel id] := by
  simp only [unsubscribe]
  split <;> simp only [past_note, past_record, past_setBus]

theorem past_clear (p : Panel L μ) (channel : Channel) :
    (p.clear channel).past = p.past ++ [.cleared channel] := by
  simp only [clear, past_record, past_setBus]

theorem past_register (p : Panel L μ) (pin : Handle) :
    (p.register pin).past = p.past ++ [.registered p.pins.registrations pin] := by
  simp only [register, past_note, past_record]
  rfl

theorem past_unregister (p : Panel L μ) (name : String) :
    (p.unregister name).2.past = p.past ++ [.unregistered name] := by
  simp only [unregister, past_record]
  rfl

theorem past_readPins (p : Panel L μ) :
    p.readPins.2.past = p.past ++ [.pass (WatchPass.run p.store p.pins.list).readings] := by
  simp [readPins, past, record, noteAll]

theorem past_pollSource (p : Panel L μ) :
    p.pollSource.2.past = p.past ++ [.polled p.pollSource.1 p.status.policy] := by
  simp [pollSource, past, record]

theorem past_cache (p : Panel L μ) (s : Snapshot) : (p.cache s).past = p.past := rfl

/-! ## Quiet steps -/

/-- The history of a panel and what it speaks of. -/
structure Core (L : Type) where
  history : Array (Happening L)
  bus : Channel → Bus L
  list : List Watch
  registrations : Nat
  cached : Option Snapshot

/-- The core of a panel. -/
def core (p : Panel L μ) : Core L where
  history := p.history
  bus := p.bus
  list := p.pins.list
  registrations := p.pins.registrations
  cached := p.status.cached

/-- From `p` to `q` nothing happens that belongs into the history. -/
def Quiet (p q : Panel L μ) : Prop :=
  q.core = p.core

theorem Quiet.refl (p : Panel L μ) : Quiet p p := rfl

theorem Quiet.trans (h : Quiet p q) (h' : Quiet q r) : Quiet p r :=
  Eq.trans h' h

theorem Quiet.past (h : Quiet p q) : q.past = p.past :=
  congrArg (fun c => c.history.toList) h

theorem Quiet.bus (h : Quiet p q) : q.bus = p.bus := congrArg Core.bus h

theorem Quiet.list (h : Quiet p q) : q.pins.list = p.pins.list := congrArg Core.list h

theorem Quiet.registrations (h : Quiet p q) : q.pins.registrations = p.pins.registrations :=
  congrArg Core.registrations h

theorem Quiet.cached (h : Quiet p q) : q.status.cached = p.status.cached :=
  congrArg Core.cached h

theorem quiet_note (p : Panel L μ) (n : Note) : Quiet p (p.note n) := rfl

theorem bus_setClock (p : Panel L μ) (t : Timekeeper) (c : Clock Unit) :
    (p.setClock t c).bus = p.bus := by
  funext channel
  cases t <;> cases channel <;> rfl

theorem quiet_setClock (p : Panel L μ) (t : Timekeeper) (c : Clock Unit) :
    Quiet p (p.setClock t c) := by
  have hb := bus_setClock p t c
  cases t <;> simp only [Quiet, core, hb] <;> rfl

theorem bus_markEnabled (p : Panel L μ) (enabled : Bool) : (p.markEnabled enabled).bus = p.bus := by
  funext channel
  cases channel <;> rfl

theorem bus_logSwitch (p : Panel L μ) (switching : Switching) :
    (p.logSwitch switching).bus = p.bus := by
  funext channel
  cases channel <;> rfl

theorem bus_setPolicy (p : Panel L μ) (policy : HomingPolicy) :
    (p.setPolicy policy).bus = p.bus := by
  funext channel
  cases channel <;> rfl

/-! ## Chores -/

/-- A change on the side, which touches neither pins nor elements nor anything
the history speaks of. -/
inductive Chore (p : Panel L μ) : Panel L μ → Prop where
  | note (n : Note) (h : n.isPinFailure = false) : Chore p (p.note n)
  | clock (t : Timekeeper) (c : Clock Unit) : Chore p (p.setClock t c)
  | enabled (enabled : Bool) : Chore p (p.markEnabled enabled)
  | switched (switching : Switching) : Chore p (p.logSwitch switching)
  | policy (policy : HomingPolicy) : Chore p (p.setPolicy policy)
  | hasStatus : Chore p { p with driver := { p.driver with hasStatus := true } }
  | cell (cell : SnapshotCell) : Chore p { p with cell }
  | binder (binder : Binder) : Chore p { p with binder }
  | now (now : Nanos) : Chore p { p with now }
  | memory (memory : μ) : Chore p { p with memory }

/-- Any number of chores. -/
abbrev Chores : Panel L μ → Panel L μ → Prop :=
  Relation.ReflTransGen Chore

theorem Chore.chores (h : Chore p q) : Chores p q := .single h

theorem Chore.quiet (h : Chore p q) : Quiet p q := by
  cases h with
  | clock t c => exact quiet_setClock p t c
  | enabled enabled => simp only [Quiet, core, bus_markEnabled]; rfl
  | switched switching => simp only [Quiet, core, bus_logSwitch]; rfl
  | policy policy => simp only [Quiet, core, bus_setPolicy]; rfl
  | _ => rfl

theorem Chores.quiet (h : Chores p q) : Quiet p q := by
  induction h with
  | refl => exact .refl p
  | tail _ hlast ih => exact ih.trans hlast.quiet

theorem chores_startClock (p : Panel L μ) (t : Timekeeper) (driven : Bool) :
    Chores p (p.startClock t driven).2 := by
  unfold startClock
  split
  · exact .refl
  · simp only
    split
    · exact (Chore.clock t _).chores.tail (.note _ rfl)
    · exact (Chore.clock t _).chores

theorem chores_stopClock (p : Panel L μ) (t : Timekeeper) : Chores p (p.stopClock t).2 := by
  unfold stopClock
  simp only
  split
  · exact (Chore.clock t _).chores.tail (.note _ rfl)
  · exact (Chore.clock t _).chores

theorem chores_startDriver (p : Panel L μ) (driven : Bool) :
    Chores p (p.startDriver driven).2 := by
  have h := chores_startClock p .driver driven
  unfold startDriver
  split
  · next heq => rw [heq] at h; exact h.tail (.note _ rfl)
  · exact h

theorem chores_enablePins (p : Panel L μ) (driven : Bool) : Chores p (p.enablePins driven).2 := by
  have h := (chores_startClock (p.markEnabled true) .pins driven).head (.enabled true)
  unfold enablePins
  simp only
  split
  · next heq =>
    rw [heq] at h
    exact h.tail (.switched _)
  · next heq =>
    rw [heq] at h
    split
    · exact h.tail (.switched _)
    · exact (h.tail (.enabled _)).tail (.switched _)

theorem chores_disablePins (p : Panel L μ) : Chores p p.disablePins :=
  ((chores_stopClock (p.markEnabled false) .pins).head (.enabled false)).tail (.switched _)

theorem chores_setPinsEnabled (p : Panel L μ) (enabled : Bool) :
    Chores p (p.setPinsEnabled enabled) := by
  unfold setPinsEnabled
  simp only
  split
  · exact ((Chore.enabled enabled).chores.tail (.switched _)).tail (.note _ rfl)
  · exact (Chore.enabled enabled).chores.tail (.switched _)

theorem chores_attachStatus (p : Panel L μ) : Chores p p.attachStatus := by
  unfold attachStatus
  simp only
  split
  · exact Chore.hasStatus.chores
  · exact (Chore.hasStatus.chores.tail (.note _ rfl)).tail (.policy _)

/-! ## Quiet operations -/

theorem quiet_keepStore (p : Panel L μ) (result : Except PinError PinStore) :
    Quiet p (Operation.keepStore p result) := by
  cases result <;> rfl

theorem quiet_createPin (p : Panel L μ) (pin : Handle) : Quiet p (p.createPin pin).2 := by
  unfold createPin
  split
  · rfl
  · simp only
    split <;> rfl

theorem quiet_bindPin (p : Panel L μ) (pin : Handle) : Quiet p (p.bindPin pin).2 := by
  unfold bindPin
  split <;> rfl

theorem quiet_attachElement (p : Panel L μ) (parent : Option Nat) (element : Element) :
    Quiet p (p.attachElement parent element).2 := by
  unfold attachElement
  split <;> rfl

theorem quiet_addBuilt (p : Panel L μ) (parent : Option Nat) (tag : String) (props : Props) :
    Quiet p (p.addBuilt parent tag props).2 := by
  have h : Quiet p (p.buildElement tag props).2 := rfl
  unfold addBuilt
  split
  · next heq => rw [heq] at h; exact h.trans (quiet_attachElement _ _ _)
  · next heq => rw [heq] at h; exact h

theorem quiet_addElement (p : Panel L μ) (parent : Option Nat) (tag : String) (props : Props) :
    Quiet p (p.addElement parent tag props).2 := by
  unfold addElement
  split
  · split
    · exact quiet_addBuilt p _ tag props
    · rfl
  · exact quiet_addBuilt p _ tag props

theorem quiet_actOn (p : Panel L μ) (id : Nat) (action : UserAction) (times : Nat) :
    Quiet p (p.actOn id action times).2 := by
  unfold actOn
  split <;> rfl

end Panel

/-- The operation neither emits anything nor turns to what the history speaks of: the buses,
the watch list and the last snapshot. Nor does it change what listeners remember. -/
def Operation.isQuiet {L μ : Type} : Operation L μ → Bool
  | register _ | newPin _ | unregister _ | pollPins | updatePins | updateStatus | requestReload
    | subscribe .. | unsubscribe .. | clear _ | emit .. | tick | remember _ => false
  | _ => true

namespace Panel

variable {L μ : Type} {p q r : Panel L μ} {react : Reaction L μ}
  {R : Panel L μ → Panel L μ → Prop}

theorem quiet_perform {op : Operation L μ} (hop : op.isQuiet = true) (p : Panel L μ) :
    Quiet p (op.perform react p) := by
  cases op with
  | createPin pin => exact quiet_createPin p pin
  | writePin | drivePin => exact quiet_keepStore p _
  | enablePins driven => exact (chores_enablePins p driven).quiet
  | disablePins => exact (chores_disablePins p).quiet
  | setPinsEnabled enabled => exact (chores_setPinsEnabled p enabled).quiet
  | setPolicy policy => exact (Chore.policy policy).quiet
  | startStatus driven => exact (chores_startClock p _ driven).quiet
  | stopStatus | stopDriver => exact (chores_stopClock p _).quiet
  | startDriver driven => exact (chores_startDriver p driven).quiet
  | bindPin pin => exact quiet_bindPin p pin
  | addElement parent tag props => exact quiet_addElement p parent tag props
  | addBuilt parent tag props => exact quiet_addBuilt p parent tag props
  | actOn id action times => exact quiet_actOn p id action times
  | removePin | publish | editSnapshot | failSource | freshBinder | takeName | takeCreated
    | updateElements => rfl
  | register | newPin | unregister | pollPins | updatePins | updateStatus | requestReload
    | subscribe | unsubscribe | clear | emit | tick | remember => cases hop

/-- On a new panel nothing has happened. -/
theorem core_new (setup : Setup) (memory : μ) :
    (Panel.new setup memory : Panel L μ).core = ⟨#[], fun _ => {}, [], 0, none⟩ := by
  have hattach : ∀ (p : Panel L μ) c, p.core = c →
      (if setup.attachStatus then p.attachStatus else p).core = c := by
    intro p c hp
    split
    · exact Eq.trans (chores_attachStatus p).quiet hp
    · exact hp
  refine hattach _ _ ?_
  rw [core, Core.mk.injEq]
  refine ⟨rfl, funext fun channel => ?_, rfl, rfl, rfl⟩
  cases channel <;> rfl

theorem past_new (setup : Setup) (memory : μ) :
    (Panel.new setup memory : Panel L μ).past = [] :=
  congrArg (fun c : Core L => c.history.toList) (core_new setup memory)

/-! ## Relations along a run -/

/-- The relation holds along every course of chores. -/
structure Walk (R : Panel L μ → Panel L μ → Prop) : Prop where
  refl : ∀ p, R p p
  trans : ∀ {p q r}, R p q → R q r → R p r
  chore : ∀ {p q}, Chore p q → R p q

theorem Walk.chores (h : Walk R) (hc : Chores p q) : R p q := by
  induction hc with
  | refl => exact h.refl p
  | tail _ hlast ih => exact h.trans ih (h.chore hlast)

/-- The relation holds along every course of quiet steps. -/
structure Course (R : Panel L μ → Panel L μ → Prop) : Prop extends Walk R where
  quiet : ∀ {p q}, Quiet p q → R p q
  chore := fun h => quiet h.quiet

/-- The relation holds along every course of notes. -/
structure Strand (R : Panel L μ → Panel L μ → Prop) : Prop where
  refl : ∀ p, R p p
  trans : ∀ {p q r}, R p q → R q r → R p r
  note : ∀ p n, n.isPinFailure = false → R p (p.note n)

theorem Walk.strand (h : Walk R) : Strand R where
  refl := h.refl
  trans := h.trans
  note _ n hn := h.chore (.note n hn)

theorem Strand.call (h : Strand R) {emission : Nat} {notice : Notice} {s : Subscription L}
    (hreact : ∀ l n p, R p (react l n p).2)
    (hcall : ∀ q : Panel L μ, R q (q.record (.call emission s notice)))
    (hend : ∀ (q : Panel L μ) c, R q (q.record (.callEnd emission s c))) (p : Panel L μ) :
    R p (p.call react emission notice s).2 :=
  h.trans (hcall p) (h.trans (hreact _ _ _) (hend _ _))

theorem Strand.deliver (h : Strand R)
    {call : Subscription L → Panel L μ → Completion × Panel L μ}
    {onPanic : Option String → Panel L μ → Panel L μ} (hcall : ∀ s p, R p (call s p).2)
    (hpanic : ∀ m p, R p (onPanic m p)) (subscribers : List (Subscription L)) (p : Panel L μ) :
    R p (Bus.deliver call onPanic subscribers p).2 := by
  induction subscribers generalizing p with
  | nil => exact h.refl p
  | cons s rest ih =>
    have hs := hcall s p
    rw [Bus.deliver]
    split
    · next heq => rw [heq] at hs; exact h.trans hs (ih _)
    · next heq => rw [heq] at hs; exact h.trans hs (h.trans (hpanic _ _) (ih _))

/-- What comes after an emission has begun, as far as its happenings can be looked
at one by one. -/
theorem Strand.serve (h : Strand R) {emission : Nat} {notice : Notice}
    (hreact : ∀ l n p, R p (react l n p).2)
    (hcall : ∀ (q : Panel L μ) s, R q (q.record (.call emission s notice)))
    (hcallEnd : ∀ (q : Panel L μ) s c, R q (q.record (.callEnd emission s c)))
    (hend : ∀ (q : Panel L μ) n, R q (q.record (.emissionEnd emission n))) (name : String)
    (recipients : List (Subscription L)) (p : Panel L μ) :
    R p (p.serve react emission name notice recipients).2 := by
  refine h.trans (h.deliver ?_ ?_ recipients p) (hend _ _)
  · exact fun s q => h.call hreact (hcall · s) (hcallEnd · s) q
  · exact fun m q => h.note q _ rfl

theorem Strand.emitAll (h : Strand R) {cause : Cause} {channel : Channel}
    {notices : List (String × Notice)}
    (hemit : ∀ n ∈ notices, ∀ p : Panel L μ, R p (p.emit react cause channel n.1 n.2).2)
    (p : Panel L μ) : R p (p.emitAll react cause channel notices) := by
  unfold Panel.emitAll
  induction notices generalizing p with
  | nil => exact h.refl p
  | cons n rest ih =>
    exact h.trans (hemit n (by simp) p) (ih (fun m hm => hemit m (by simp [hm])) _)

/-- What comes after a pass has read the pins, as far as its happenings can be
looked at one by one. -/
theorem Strand.finishPass (h : Strand R) {number : Nat}
    (hemit : ∀ (q : Panel L μ) name,
      R q (q.emit react (.pass number) .pins name (.pin ⟨name⟩)).2)
    (hend : ∀ (q : Panel L μ) n, R q (q.record (.passEnd number n))) (changed : List String)
    (p : Panel L μ) : R p (p.finishPass react number changed) := by
  refine h.trans (h.emitAll (fun n hn q => ?_) p) (hend _ _)
  obtain ⟨name, -, rfl⟩ := List.mem_map.1 hn
  exact hemit q name

/-- What comes after an update has polled the source, as far as its happenings
can be looked at one by one. -/
theorem Strand.acceptSnapshot (h : Strand R) {poll : Nat}
    (hcache : ∀ (q : Panel L μ) s, R q (q.cache s))
    (hemit : ∀ (q : Panel L μ) e, R q (q.emit react (.update poll) .status e.name (.status e)).2)
    (p : Panel L μ) (s : Snapshot) : R p (p.acceptSnapshot react poll s) := by
  refine h.trans (hcache p s) (h.emitAll (fun n hn q => ?_) _)
  obtain ⟨e, -, rfl⟩ := List.mem_map.1 hn
  exact hemit q e

/-- What a listener does, as far as its operations can be looked at one by one. -/
theorem Strand.carryOut (h : Strand R) {admits : Panel L μ → Operation L μ → Prop}
    (hperform : ∀ {op p}, admits p op → R p (op.perform react p)) (plan : Plan L μ) (p : Panel L μ)
    (hplan : plan.All admits p) : R p (plan.carryOut react p).2 := by
  induction plan generalizing p with
  | finish completion => exact h.refl p
  | perform op next ih => exact h.trans (hperform hplan.1) (ih _ _ (hplan.2 _))

/-- What a listener does, as deep as emissions nest. -/
theorem Strand.reaction (h : Strand R) {admits : Panel L μ → Operation L μ → Prop}
    {conduct : Conduct L μ} (hconduct : ∀ l n p, (conduct l n p).All admits p)
    (hperform : ∀ {react : Reaction L μ}, (∀ l n p, R p (react l n p).2) →
      ∀ {op p}, admits p op → R p (op.perform react p))
    (depth : Nat) (l : L) (n : Notice) (p : Panel L μ) : R p (conduct.react depth l n p).2 := by
  induction depth generalizing l n p with
  | zero => exact h.refl p
  | succ depth ih => exact h.carryOut (hperform ih) _ p (hconduct l n p)

/-- An alarm goes off, as far as the clock and what it calls can be looked at one by one. -/
theorem Strand.fire (h : Strand R) {t : Timekeeper}
    (hset : ∀ (p : Panel L μ) c, R p (p.setClock t c))
    (hcall : ∀ p : Panel L μ, R p (p.callTimekeeper react t).2) (p : Panel L μ) :
    R p (p.fire react t) := by
  unfold Panel.fire
  split
  · exact h.refl p
  · next alarm _ =>
    have hoff := hset p ((p.clock t).goOff alarm).2
    simp only
    split
    · refine h.trans hoff (h.trans (hcall _) ?_)
      split
      · exact hset _ _
      · exact h.trans (hset _ _) (h.note _ _ rfl)
    · exact hoff

/-- A stretch of time, as far as alarms can be looked at one by one. -/
theorem Strand.advanceTo (h : Strand R) (hnow : ∀ (p : Panel L μ) now, R p { p with now })
    (hfire : ∀ p t, R p (p.fire react t)) (target : Nanos) (fuel : Nat) (p : Panel L μ) :
    R p (p.advanceTo react target fuel) := by
  induction fuel generalizing p with
  | zero => exact hnow p target
  | succ fuel ih =>
    unfold Panel.advanceTo
    split
    · exact hnow p target
    · next t wake _ =>
      split
      · exact h.trans (h.trans (hnow p wake) (hfire _ t)) (ih _)
      · exact hnow p target

/-- A run, as far as its steps can be looked at one by one. -/
theorem Strand.run (h : Strand R) {admits : Panel L μ → Operation L μ → Prop}
    (hperform : ∀ {op p}, admits p op → R p (op.perform react p))
    (hadvance : ∀ p ms, R p (p.advance react ms)) (steps : List (Step L μ))
    (hsteps : ∀ op, .operation op ∈ steps → ∀ p, admits p op) (p : Panel L μ) :
    R p (p.run react steps) := by
  unfold Panel.run
  induction steps generalizing p with
  | nil => exact h.refl p
  | cons step rest ih =>
    refine h.trans ?_ (ih (fun op hop => hsteps op (by simp [hop])) _)
    cases step with
    | operation op => exact hperform (hsteps op (by simp) p)
    | advance ms => exact hadvance p ms

theorem emit_eq (p : Panel L μ) (cause : Cause) (channel : Channel) (name : String)
    (notice : Notice) :
    p.emit react cause channel name notice =
      (p.record (.emission cause channel name notice)).serve react p.past.length name notice
        ((p.bus channel).recipients name) := by
  rw [← size_history]
  rfl

theorem pollPins_snd (p : Panel L μ) :
    (p.pollPins react).2 = p.readPins.2.finishPass react p.past.length p.readPins.1.changed := by
  rw [← size_history]
  rfl

theorem updateStatus_eq (p : Panel L μ) :
    p.updateStatus react = match p.pollSource.1 with
      | .ok s => p.pollSource.2.acceptSnapshot react p.past.length s
      | .error e => p.pollSource.2.note (.pollFailed e) := by
  unfold updateStatus
  simp only [size_history]
  rcases p.pollSource with ⟨_ | _, q⟩ <;> rfl

/-- The relation holds along the operations that are admitted. -/
structure Closed (react : Reaction L μ) (admits : Panel L μ → Operation L μ → Prop)
    (R : Panel L μ → Panel L μ → Prop) : Prop extends Walk R where
  perform : ∀ {op p}, admits p op → R p (op.perform react p)

namespace Closed

variable {admits : Panel L μ → Operation L μ → Prop}

theorem carryOut (h : Closed react admits R) (plan : Plan L μ) (p : Panel L μ)
    (hplan : plan.All admits p) : R p (plan.carryOut react p).2 :=
  h.strand.carryOut h.perform plan p hplan

theorem fire (h : Closed react admits R)
    (htick : ∀ p, admits p .updatePins ∧ admits p .updateStatus ∧ admits p .tick) (p : Panel L μ)
    (t : Timekeeper) : R p (p.fire react t) := by
  refine h.strand.fire (fun q c => h.chore (.clock t c)) (fun q => ?_) p
  obtain ⟨hpins, hstatus, hdriver⟩ := htick q
  cases t with
  | pins => exact h.perform hpins
  | status => exact h.perform hstatus
  | driver => exact h.perform hdriver

/-- **What holds along the operations holds along the runs.** -/
theorem run (h : Closed react admits R)
    (htick : ∀ p, admits p .updatePins ∧ admits p .updateStatus ∧ admits p .tick)
    (steps : List (Step L μ)) (hsteps : ∀ op, .operation op ∈ steps → ∀ p, admits p op)
    (p : Panel L μ) : R p (p.run react steps) := by
  refine h.strand.run h.perform (fun q ms => ?_) steps hsteps p
  exact h.strand.advanceTo (fun r now => h.chore (.now now)) (h.fire htick) _ _ q

/-- **What holds along the operations holds along what the listeners do**, as
deep as emissions nest. -/
theorem reaction {conduct : Conduct L μ} (hrefl : ∀ p, R p p)
    (hconduct : ∀ l n p, (conduct l n p).All admits p)
    (h : ∀ {react : Reaction L μ}, (∀ l n p, R p (react l n p).2) → Closed react admits R)
    (depth : Nat) (l : L) (n : Notice) (p : Panel L μ) : R p (conduct.react depth l n p).2 := by
  induction depth generalizing l n p with
  | zero => exact hrefl p
  | succ depth ih => exact (h ih).carryOut _ p (hconduct l n p)

end Closed

/-- The relation holds along every run without updates of the status. -/
structure Steady (react : Reaction L μ) (R : Panel L μ → Panel L μ → Prop) : Prop
    extends Course R where
  subscribe : ∀ p channel filter listener, R p (p.subscribe channel filter listener).2
  unsubscribe : ∀ p channel id, R p (p.unsubscribe channel id).2
  clear : ∀ p channel, R p (p.clear channel)
  register : ∀ p pin, R p (p.register pin)
  unregister : ∀ p name, R p (p.unregister name).2
  pollPins : ∀ p, R p (p.pollPins react).2
  emit : ∀ p channel name notice, R p (p.emit react .request channel name notice).2
  requestReload : ∀ p, R p (p.requestReload react)

namespace Steady

/-- A relation may be replaced by one that is easier to have. -/
theorem weaken {S : Panel L μ → Panel L μ → Prop} (h : Steady react R) (hcourse : Course S)
    (hRS : ∀ {p q}, R p q → S p q) : Steady react S where
  toCourse := hcourse
  subscribe p channel filter listener := hRS (h.subscribe p channel filter listener)
  unsubscribe p channel id := hRS (h.unsubscribe p channel id)
  clear p channel := hRS (h.clear p channel)
  register p pin := hRS (h.register p pin)
  unregister p name := hRS (h.unregister p name)
  pollPins p := hRS (h.pollPins p)
  emit p channel name notice := hRS (h.emit p channel name notice)
  requestReload p := hRS (h.requestReload p)

theorem newPin (h : Steady react R) (p : Panel L μ) (pin : Handle) : R p (p.newPin pin).2 := by
  have hc := h.quiet (quiet_createPin p pin)
  unfold Panel.newPin
  split
  · next heq => rw [heq] at hc; exact h.trans hc (h.register _ _)
  · exact hc

theorem updatePins (h : Steady react R) (p : Panel L μ) : R p (p.updatePins react).2 := by
  unfold Panel.updatePins
  split
  · exact h.pollPins p
  · exact h.refl p

theorem tickPins (h : Steady react R) (p : Panel L μ) : R p (p.tickPins react).2 := by
  unfold Panel.tickPins
  split
  · exact h.pollPins p
  · exact h.refl p

theorem tick (h : Steady react R) (p : Panel L μ)
    (hupdate : p.driver.hasStatus = true → R p (p.updateStatus react)) :
    R p (p.tick react).2 := by
  refine h.trans ?_ (h.trans (h.tickPins _) (h.quiet rfl))
  split
  · next hs => exact hupdate hs
  · exact h.refl p

theorem perform (h : Steady react R) (op : Operation L μ) (p : Panel L μ)
    (hupdate : op.updatesStatus p = true → R p (p.updateStatus react)) :
    R p (op.perform react p) := by
  by_cases hquiet : op.isQuiet = true
  · exact h.quiet (quiet_perform hquiet p)
  · cases op with
    | register pin => exact h.register p pin
    | newPin pin => exact h.newPin p pin
    | unregister name => exact h.unregister p name
    | pollPins => exact h.pollPins p
    | updatePins => exact h.updatePins p
    | updateStatus => exact hupdate rfl
    | requestReload => exact h.requestReload p
    | subscribe channel filter listener => exact h.subscribe p channel filter listener
    | unsubscribe channel id => exact h.unsubscribe p channel id
    | clear channel => exact h.clear p channel
    | emit channel name notice => exact h.emit p channel name notice
    | tick => exact h.tick p hupdate
    | remember => exact h.quiet rfl
    | _ => exact absurd rfl hquiet

/-- The operations are admitted, but for updates of the status along which the
relation is not known to hold. -/
theorem closed (h : Steady react R) :
    Closed react (fun p op => op.updatesStatus p = true → R p (p.updateStatus react)) R where
  toWalk := h.toWalk
  perform hupdate := h.perform _ _ hupdate

theorem carryOut (h : Steady react R) (plan : Plan L μ) (p : Panel L μ)
    (hupdate : plan.All (fun p op => op.updatesStatus p = false) p ∨
      ∀ p, R p (p.updateStatus react)) :
    R p (plan.carryOut react p).2 := by
  refine h.closed.carryOut plan p ?_
  rcases hupdate with havoids | hu
  · exact havoids.imp fun p op hfalse htrue => by rw [hfalse] at htrue; cases htrue
  · exact Plan.all_of_forall fun p _ _ => hu p

theorem run (h : Steady react R) (hupdate : ∀ p, R p (p.updateStatus react))
    (steps : List (Step L μ)) (p : Panel L μ) : R p (p.run react steps) :=
  h.closed.run (fun p => ⟨fun _ => hupdate p, fun _ => hupdate p, fun _ => hupdate p⟩) steps
    (fun _ _ p _ => hupdate p) p

end Steady

/-! ## Listeners -/

/-- A conduct under which no listener makes an update of the status. -/
def AvoidsUpdates (conduct : Conduct L μ) : Prop :=
  ∀ l n p, (conduct l n p).All (fun p op => op.updatesStatus p = false) p

/-- The relation holds along every emission and every pass, provided that it
holds along what the listeners do. -/
structure Lasting (R : Panel L μ → Panel L μ → Prop) : Prop extends Course R where
  steady : ∀ {react : Reaction L μ}, (∀ l n p, R p (react l n p).2) → Steady react R

/-- **What holds along the operations holds along what the listeners do**, as
deep as emissions nest. -/
theorem Lasting.reaction (h : Lasting R) {conduct : Conduct L μ}
    (hupdate : AvoidsUpdates conduct ∨
      ∀ {react : Reaction L μ}, (∀ l n p, R p (react l n p).2) → ∀ p, R p (p.updateStatus react))
    (depth : Nat) (l : L) (n : Notice) (p : Panel L μ) : R p (conduct.react depth l n p).2 := by
  induction depth generalizing l n p with
  | zero => exact h.refl p
  | succ depth ih => exact (h.steady ih).carryOut _ p (hupdate.imp (· l n p) (· ih))

/-- The relation holds along everything, updates of the status included. -/
structure Permanent (R : Panel L μ → Panel L μ → Prop) : Prop extends Lasting R where
  updateStatus : ∀ {react : Reaction L μ}, (∀ l n p, R p (react l n p).2) →
    ∀ p, R p (p.updateStatus react)

theorem Permanent.reaction (h : Permanent R) (conduct : Conduct L μ) (depth : Nat) (l : L)
    (n : Notice) (p : Panel L μ) : R p (conduct.react depth l n p).2 :=
  h.toLasting.reaction (.inr h.updateStatus) depth l n p

theorem Permanent.run (h : Permanent R) (conduct : Conduct L μ) (depth : Nat)
    (steps : List (Step L μ)) (p : Panel L μ) : R p (p.run (conduct.react depth) steps) :=
  (h.steady (h.reaction conduct depth)).run (h.updateStatus (h.reaction conduct depth)) steps p

/-! ## Growth -/

/-- The history of `q` goes on from that of `p`; what was added belongs to the
happenings in `underway`, or to others that were added. -/
def Grows (underway : List Nat) (p q : Panel L μ) : Prop :=
  ∃ added, q.past = p.past ++ added ∧
    ∀ h ∈ added, ∀ n, h.subject? = some n → n ∈ underway ∨ p.past.length ≤ n

theorem Grows.mono {underway more : List Nat} (h : Grows underway p q)
    (hsub : ∀ n ∈ underway, n ∈ more ∨ p.past.length ≤ n) : Grows more p q := by
  obtain ⟨added, ha, hs⟩ := h
  refine ⟨added, ha, fun x hx n hn => ?_⟩
  rcases hs x hx n hn with h' | h'
  · exact hsub n h'
  · exact .inr h'

theorem Grows.length_le {underway : List Nat} (h : Grows underway p q) :
    p.past.length ≤ q.past.length := by
  obtain ⟨added, ha, -⟩ := h
  simp [ha]

/-- What happened from `p` to `q`. -/
def since (p q : Panel L μ) : List (Happening L) :=
  q.past.drop p.past.length

theorem since_eq {added : List (Happening L)} (h : q.past = p.past ++ added) :
    since p q = added := by
  simp [since, h]

theorem Quiet.since (h : Quiet p q) : since p q = [] :=
  since_eq (by rw [h.past, List.append_nil])

theorem past_eq_append (h : p.past <+: q.past) : q.past = p.past ++ since p q := by
  obtain ⟨added, ha⟩ := h
  rw [since_eq ha.symm, ha]

theorem since_append (h : p.past <+: q.past) (h' : q.past <+: r.past) :
    since p r = since p q ++ since q r := by
  refine since_eq ?_
  rw [past_eq_append h', past_eq_append h, List.append_assoc]

theorem Grows.continues {underway : List Nat} (h : Grows underway p q) : p.past <+: q.past := by
  obtain ⟨added, ha, -⟩ := h
  exact ⟨added, ha.symm⟩

theorem Grows.past_eq {underway : List Nat} (h : Grows underway p q) :
    q.past = p.past ++ since p q :=
  past_eq_append h.continues

theorem Grows.subject {underway : List Nat} (h : Grows underway p q) :
    ∀ x ∈ since p q, ∀ n, x.subject? = some n → n ∈ underway ∨ p.past.length ≤ n := by
  obtain ⟨added, ha, hs⟩ := h
  rwa [since_eq ha]

theorem Grows.length_eq {underway : List Nat} (h : Grows underway p q) :
    q.past.length = p.past.length + (since p q).length := by
  rw [h.past_eq, List.length_append]

theorem Grows.since_trans {underway more : List Nat} (h : Grows underway p q)
    (h' : Grows more q r) : since p r = since p q ++ since q r :=
  since_append h.continues h'.continues

/-- What listeners do does not belong to anything under way. -/
theorem Grows.foreign {number : Nat} (h : Grows [] p q) (hlt : number < p.past.length) :
    Foreign number (since p q) := by
  intro x hx hn
  rcases h.subject x hx number hn with h' | h'
  · cases h'
  · omega

theorem grows_course (underway : List Nat) : Course (Grows (L := L) (μ := μ) underway) where
  refl p := ⟨[], by simp, by simp⟩
  trans := by
    rintro p q r ⟨a₁, h₁, hs₁⟩ ⟨a₂, h₂, hs₂⟩
    refine ⟨a₁ ++ a₂, by rw [h₂, h₁, List.append_assoc], fun x hx n hn => ?_⟩
    rcases List.mem_append.1 hx with hx | hx
    · exact hs₁ x hx n hn
    · have hlen : p.past.length ≤ q.past.length := by simp [h₁]
      rcases hs₂ x hx n hn with h' | h'
      · exact .inl h'
      · exact .inr (Nat.le_trans hlen h')
  quiet h := ⟨[], by simp [h.past], by simp⟩

theorem grows_record {underway : List Nat} {h : Happening L}
    (hs : ∀ n, h.subject? = some n → n ∈ underway ∨ p.past.length ≤ n) :
    Grows underway p (p.record h) :=
  ⟨[h], by simp, by simpa using hs⟩

/-- What belongs to a happening comes after it. -/
theorem Grows.enclose {underway : List Nat} {x : Happening L} (hpast : q.past = p.past ++ [x])
    (hx : ∀ n, x.subject? = some n → n ∈ underway) (h : Grows (p.past.length :: underway) q r) :
    Grows underway p r := by
  have hx' : Grows (p.past.length :: underway) p q :=
    ⟨[x], hpast, by simpa using fun n hn => .inl (.inr (hx n hn))⟩
  refine ((grows_course _).trans hx' h).mono fun n hn => ?_
  rcases List.mem_cons.1 hn with rfl | hn
  · exact .inr (Nat.le_refl _)
  · exact .inl hn

theorem grows_serve (hreact : ∀ l n p, Grows [] p (react l n p).2) (emission : Nat) (name : String)
    (notice : Notice) (recipients : List (Subscription L)) (p : Panel L μ) :
    Grows [emission] p (p.serve react emission name notice recipients).2 := by
  have hreact' : ∀ l n q, Grows [emission] q (react l n q).2 :=
    fun l n q => (hreact l n q).mono (by simp)
  refine (grows_course _).strand.serve hreact' ?_ ?_ ?_ name _ p
  · exact fun q s => grows_record (by simp [Happening.subject?])
  · exact fun q s c => grows_record (by simp [Happening.subject?])
  · exact fun q n => grows_record (by simp [Happening.subject?])

theorem grows_emit (hreact : ∀ l n p, Grows [] p (react l n p).2) (p : Panel L μ) (cause : Cause)
    (channel : Channel) (name : String) (notice : Notice) :
    Grows cause.subject?.toList p (p.emit react cause channel name notice).2 := by
  rw [emit_eq]
  exact .enclose (past_record p _) (by simp [Happening.subject?])
    ((grows_serve hreact p.past.length name notice _ _).mono (by simp))

theorem grows_emitAll (hreact : ∀ l n p, Grows [] p (react l n p).2) (cause : Cause)
    (channel : Channel) (notices : List (String × Notice)) (p : Panel L μ) :
    Grows cause.subject?.toList p (p.emitAll react cause channel notices) :=
  (grows_course _).strand.emitAll (fun n _ p => grows_emit hreact p cause channel n.1 n.2) p

theorem grows_finishPass (hreact : ∀ l n p, Grows [] p (react l n p).2) (number : Nat)
    (changed : List String) (p : Panel L μ) :
    Grows [number] p (p.finishPass react number changed) := by
  refine (grows_course _).strand.finishPass ?_ ?_ _ _
  · exact fun q name => grows_emit hreact q (.pass number) .pins name _
  · exact fun q n => grows_record (by simp [Happening.subject?])

theorem grows_pollPins (hreact : ∀ l n p, Grows [] p (react l n p).2) (p : Panel L μ) :
    Grows [] p (p.pollPins react).2 := by
  rw [pollPins_snd]
  exact .enclose (past_readPins p) (by simp [Happening.subject?]) (grows_finishPass hreact _ _ _)

theorem grows_updateStatus (hreact : ∀ l n p, Grows [] p (react l n p).2) (p : Panel L μ) :
    Grows [] p (p.updateStatus react) := by
  rw [updateStatus_eq]
  refine .enclose (past_pollSource p) (by simp [Happening.subject?]) ?_
  split
  · refine (grows_course _).strand.acceptSnapshot ?_ ?_ _ _
    · exact fun q s => ⟨[], by rw [past_cache, List.append_nil], by simp⟩
    · exact fun q e => grows_emit hreact q (.update p.past.length) .status e.name _
  · exact (grows_course _).quiet (quiet_note _ _)

theorem grows_steady (hreact : ∀ l n p, Grows [] p (react l n p).2) :
    Steady react (Grows (L := L) (μ := μ) []) where
  toCourse := grows_course []
  subscribe p channel filter listener :=
    ⟨_, past_subscribe p channel filter listener, by simp [Happening.subject?]⟩
  unsubscribe p channel id := ⟨_, past_unsubscribe p channel id, by simp [Happening.subject?]⟩
  clear p channel := ⟨_, past_clear p channel, by simp [Happening.subject?]⟩
  register p pin := ⟨_, past_register p pin, by simp [Happening.subject?]⟩
  unregister p name := ⟨_, past_unregister p name, by simp [Happening.subject?]⟩
  pollPins := grows_pollPins hreact
  emit p channel name notice := grows_emit hreact p .request channel name notice
  requestReload p := grows_emitAll hreact .reload .status _ p

theorem grows_permanent : Permanent (Grows (L := L) (μ := μ) []) where
  toCourse := grows_course []
  steady := grows_steady
  updateStatus := grows_updateStatus

end Panel

end MachinePanel
