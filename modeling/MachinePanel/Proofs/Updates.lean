/-
The updates of the status watcher, told by the history. An update is known by
the number of its poll. `run_updates` says that along every run each poll that
gives a snapshot is followed by the emission of what has changed since the
snapshot before it, in order and under the policy then in force, and that a
failed poll is followed by no emission; listeners may do what they please,
updates included. `run_reports` says that the updates do not overlap as long
as no listener makes one: all events ever emitted by updates are the changes
from poll to poll, one after the other.
-/
import MachinePanel.Proofs.Causes
import MachinePanel.Proofs.Changes
import MachinePanel.Proofs.Ledger

namespace MachinePanel

variable {L : Type}

/-! ## What polls lead to -/

/-- The snapshot to keep after a happening. -/
def Happening.observe (cached : Option Snapshot) : Happening L → Option Snapshot
  | polled (.ok s) _ => some s
  | _ => cached

/-- The events that an update emits for its poll, given the snapshot kept before. -/
def Happening.dues (cached : Option Snapshot) : Happening L → List StatusEvent
  | polled (.ok s) policy => changes cached s policy
  | _ => []

/-- The ledger of updates. Its state is the snapshot kept, and a poll requires
the emission of what has changed since. -/
def updateLedger : Ledger L (Option Snapshot) where
  enter cached x := x.observe cached
  requires cached number
    | .polled answer policy, l => emissionsFor (.update number) l =
        (Panel.statusNotices ((Happening.polled (L := L) answer policy).dues cached)).map
          (.status, ·)
    | _, _ => True
  requires_append {cached number x l₁ l₂} h hf := by
    cases x with
    | polled answer policy =>
      change emissionsFor _ _ = _
      rw [emissionsFor_append, h, hf.emissionsFor rfl, List.append_nil]
    | _ => trivial

namespace Panel

variable {μ : Type} {p q r : Panel L μ} {react : Reaction L μ}

/-- The account of updates. -/
def updates : Account L μ (Option Snapshot) where
  toLedger := updateLedger
  view p := p.status.cached
  view_quiet h := h.cached
  view_record _ _ := rfl

/-- From `p` to `q` the snapshot kept is the last one got, and all updates emit what they should. -/
abbrev Updates (underway : List Nat) (p q : Panel L μ) : Prop :=
  updates.Holds underway p q

theorem updates_ignoresBuses : (updates (L := L) (μ := μ)).IgnoresBuses where
  emission _ _ _ _ := ⟨fun _ => rfl, fun _ _ _ => trivial⟩
  call _ _ _ := ⟨fun _ => rfl, fun _ _ _ => trivial⟩
  callEnd _ _ _ := ⟨fun _ => rfl, fun _ _ _ => trivial⟩
  emissionEnd _ _ := ⟨fun _ => rfl, fun _ _ _ => trivial⟩
  subscribed _ _ := ⟨fun _ => rfl, fun _ _ _ => trivial⟩
  unsubscribed _ _ := ⟨fun _ => rfl, fun _ _ _ => trivial⟩
  cleared _ := ⟨fun _ => rfl, fun _ _ _ => trivial⟩
  view_setBus _ channel _ := by cases channel <;> rfl

theorem updates_pollPins (hreact : ∀ l n p, Updates [] p (react l n p).2) (p : Panel L μ) :
    Updates [] p (p.pollPins react).2 := by
  rw [pollPins_snd]
  refine Account.holds_enclose (past_readPins p) rfl (by simp [Happening.subject?]) trivial
    ((updates.holds_course _).strand.finishPass ?_ ?_ _ _)
  · exact fun q name =>
      updates_ignoresBuses.emit hreact q (.pass p.past.length) .pins name (.pin ⟨name⟩)
  · exact fun q n => Account.holds_record ⟨fun _ => rfl, fun _ _ _ => trivial⟩
      (by simp [Happening.subject?]) q

/-- The poll comes first; what it requires is emitted from the panel that keeps the snapshot. -/
theorem updates_updateStatus (hreact : ∀ l n p, Updates [] p (react l n p).2) (p : Panel L μ) :
    Updates [] p (p.updateStatus react) := by
  have hpast := past_pollSource p
  rw [updateStatus_eq]
  cases hpoll : p.pollSource.1 with
  | error e =>
    rw [hpoll] at hpast
    refine Account.holds_enclose hpast rfl (by simp [Happening.subject?]) ?_
      ((updates.holds_course _).quiet (quiet_note _ _))
    rw [(quiet_note _ _).since]
    rfl
  | ok s =>
    rw [hpoll] at hpast
    have hlen : p.past.length < (p.pollSource.2.cache s).past.length := by
      rw [past_cache, hpast]
      simp
    refine Account.holds_enclose (q := p.pollSource.2.cache s) hpast rfl
      (by simp [Happening.subject?]) ?_
      (updates_ignoresBuses.emitAll hreact (.update p.past.length) _ _ _)
    exact emissionsFor_emitAll (fun l n p => (hreact l n p).grows) rfl .status _ _ hlen

theorem updates_permanent : Permanent (Updates (L := L) (μ := μ) []) where
  toCourse := updates.holds_course []
  steady hreact := updates_ignoresBuses.steady hreact
    (fun p pin => Account.holds_single (past_register p pin) rfl (by simp [Happening.subject?])
      trivial)
    (fun p name => Account.holds_single (past_unregister p name) rfl
      (by simp [Happening.subject?]) trivial)
    (updates_pollPins hreact)
  updateStatus := updates_updateStatus

/-- **Every poll that gives a snapshot is followed by the emission of what has
changed since the snapshot kept before**, and by no other of its update,
whatever listeners do; the snapshot kept is the last one that was got. -/
theorem run_updates (conduct : Conduct L μ) (depth : Nat) (steps : List (Step L μ))
    (p : Panel L μ) : Updates [] p (p.run (conduct.react depth) steps) :=
  updates_permanent.run conduct depth steps p

end Panel

/-! ## The list of updates -/

/-- An update that got a snapshot, with the policy in force and the events it emitted. -/
structure Update where
  snapshot : Snapshot
  policy : HomingPolicy
  events : List StatusEvent

/-- The event on the status, if an emission carries one. -/
def Notice.statusEvent? : Notice → Option StatusEvent
  | status e => some e
  | _ => none

/-- The updates among the happenings, the first of which has the number `base`. -/
def updatesIn (base : Nat) : List (Happening L) → List Update
  | [] => []
  | .polled (.ok s) policy :: l =>
    ⟨s, policy, (emissionsFor (.update base) l).filterMap (·.2.2.statusEvent?)⟩ ::
      updatesIn (base + 1) l
  | _ :: l => updatesIn (base + 1) l

/-- The snapshot got, if the happening is a poll that gave one. -/
def Happening.got? : Happening L → Option Snapshot
  | polled (.ok s) _ => some s
  | _ => none

/-- The snapshots that polls gave. -/
def snapshotsGot (happenings : List (Happening L)) : List Snapshot :=
  happenings.filterMap Happening.got?

theorem map_updatesIn (base : Nat) (l : List (Happening L)) :
    (updatesIn base l).map (·.snapshot) = snapshotsGot l := by
  induction l generalizing base with
  | nil => rfl
  | cons x l ih =>
    have hl := ih (base + 1)
    cases x with
    | polled answer policy =>
      cases answer with
      | error e => exact hl
      | ok s => exact congrArg (s :: ·) hl
    | _ => exact hl

/-- Every update emits what has changed since the snapshot before it. -/
def Linked (cached : Option Snapshot) : List Update → Prop
  | [] => True
  | u :: rest => u.events = changes cached u.snapshot u.policy ∧ Linked (some u.snapshot) rest

/-- The events that polls give rise to, in the order of the polls. -/
def story (cached : Option Snapshot) : List (Happening L) → List StatusEvent
  | [] => []
  | x :: l => x.dues cached ++ story (x.observe cached) l

theorem story_append (cached : Option Snapshot) (l₁ l₂ : List (Happening L)) :
    story cached (l₁ ++ l₂) = story cached l₁ ++ story (updateLedger.after cached l₁) l₂ := by
  induction l₁ generalizing cached with
  | nil => rfl
  | cons x l ih =>
    rw [List.cons_append, story, story, ih, List.append_assoc]
    rfl

theorem filterMap_statusNotices (events : List StatusEvent) :
    ((Panel.statusNotices events).map (Channel.status, ·)).filterMap (·.2.2.statusEvent?) =
      events := by
  induction events with
  | nil => rfl
  | cons e rest ih =>
    simp only [Panel.statusNotices, List.map_cons, List.filterMap_cons] at ih ⊢
    rw [ih]
    rfl

/-- What the ledger of updates settles, said of the list of updates. -/
theorem linked_updatesIn {base : Nat} {cached : Option Snapshot} {l : List (Happening L)}
    (h : updateLedger.Settled base cached l) :
    Linked cached (updatesIn base l) ∧
      story cached l = (updatesIn base l).flatMap (·.events) ∧
      updateLedger.after cached l = ((updatesIn base l).getLast?.map (·.snapshot)).or cached := by
  induction l generalizing base cached with
  | nil => exact ⟨trivial, rfl, rfl⟩
  | cons x l ih =>
    obtain ⟨hlinked, hstory, hafter⟩ := ih h.tail
    cases x with
    | polled answer policy =>
      cases answer with
      | error e => exact ⟨hlinked, hstory, hafter⟩
      | ok s =>
        have hevents : (emissionsFor (.update base) l).filterMap (·.2.2.statusEvent?) =
            changes cached s policy := by
          have hr := h.head
          change emissionsFor _ _ = _ at hr
          rw [hr]
          exact filterMap_statusNotices _
        refine ⟨⟨hevents, hlinked⟩, ?_, ?_⟩
        · rw [updatesIn, List.flatMap_cons, hevents, ← hstory]
          rfl
        · rw [Ledger.after_cons, hafter, updatesIn]
          cases updatesIn (base + 1) l with
          | nil => rfl
          | cons u rest => simp [List.getLast?_cons]
    | _ => exact ⟨hlinked, hstory, hafter⟩

/-! ## Updates one after the other -/

/-- The event, if the happening is an emission by the status watcher. -/
def Happening.statusEvent? : Happening L → Option StatusEvent
  | emission (.update _) _ _ notice | emission .reload _ _ notice => notice.statusEvent?
  | _ => none

/-- The happening is a poll of the source. -/
def Happening.isPoll : Happening L → Bool
  | polled .. => true
  | _ => false

/-- The events the status watcher emitted. -/
def statusEvents (happenings : List (Happening L)) : List StatusEvent :=
  happenings.filterMap Happening.statusEvent?

/-- The events the status watcher emitted, without those that ask displays to reload. -/
def updateEvents (happenings : List (Happening L)) : List StatusEvent :=
  (statusEvents happenings).filter (· != .reloadDisplay)

theorem updateEvents_append (l₁ l₂ : List (Happening L)) :
    updateEvents (l₁ ++ l₂) = updateEvents l₁ ++ updateEvents l₂ := by
  simp [updateEvents, statusEvents]

theorem after_eq_of_polls {l : List (Happening L)} (h : ∀ x ∈ l, x.isPoll = false)
    (cached : Option Snapshot) : updateLedger.after cached l = cached := by
  induction l generalizing cached with
  | nil => rfl
  | cons x l ih =>
    have hx := h x (by simp)
    have hl := ih (fun y hy => h y (by simp [hy]))
    cases x with
    | polled answer policy => cases hx
    | _ => exact hl cached

theorem story_eq_nil {l : List (Happening L)} (h : ∀ x ∈ l, x.isPoll = false)
    (cached : Option Snapshot) : story cached l = [] := by
  induction l generalizing cached with
  | nil => rfl
  | cons x l ih =>
    have hx := h x (by simp)
    have hl := ih (fun y hy => h y (by simp [hy]))
    cases x with
    | polled answer policy => cases hx
    | _ => exact hl cached

namespace Panel

variable {μ : Type} {p q r : Panel L μ} {react : Reaction L μ}

/-- From `p` to `q` the status watcher emits these events, and polls nothing. -/
structure Reports (events : List StatusEvent) (p q : Panel L μ) : Prop where
  continues : p.past <+: q.past
  cached : q.status.cached = p.status.cached
  events : updateEvents (since p q) = events
  polls : ∀ x ∈ since p q, x.isPoll = false

theorem Reports.trans {e₁ e₂ : List StatusEvent} (h₁ : Reports e₁ p q) (h₂ : Reports e₂ q r) :
    Reports (e₁ ++ e₂) p r where
  continues := h₁.continues.trans h₂.continues
  cached := h₂.cached.trans h₁.cached
  events := by
    rw [since_append h₁.continues h₂.continues, updateEvents_append, h₁.events, h₂.events]
  polls := by
    rw [since_append h₁.continues h₂.continues]
    intro x hx
    rcases List.mem_append.1 hx with hx | hx
    · exact h₁.polls x hx
    · exact h₂.polls x hx

/-- A step with one happening. -/
theorem reports_single {x : Happening L} (hpast : q.past = p.past ++ [x])
    (hcached : q.status.cached = p.status.cached) (hx : x.isPoll = false) :
    Reports (updateEvents [x]) p q where
  continues := ⟨[x], hpast.symm⟩
  cached := hcached
  events := by rw [since_eq hpast]
  polls := by
    rw [since_eq hpast]
    simpa using hx

theorem reports_course : Course (Reports (L := L) (μ := μ) []) where
  refl p := ⟨List.prefix_rfl, rfl, by simp [(Quiet.refl p).since, updateEvents, statusEvents],
    by simp [(Quiet.refl p).since]⟩
  trans h h' := h.trans h'
  quiet h := ⟨⟨[], by rw [h.past, List.append_nil]⟩, h.cached,
    by simp [h.since, updateEvents, statusEvents], by simp [h.since]⟩

theorem reports_emit (hreact : ∀ l n p, Reports [] p (react l n p).2) (p : Panel L μ)
    (cause : Cause) (channel : Channel) (name : String) (notice : Notice) :
    Reports (updateEvents [(.emission cause channel name notice : Happening L)]) p
      (p.emit react cause channel name notice).2 := by
  rw [emit_eq]
  have hbegin := reports_single (past_record p (.emission cause channel name notice)) rfl rfl
  have hserve := reports_course.strand.serve hreact
    (fun q s => reports_single (past_record q (.call p.past.length s notice)) rfl rfl)
    (fun q s c => reports_single (past_record q (.callEnd p.past.length s c)) rfl rfl)
    (fun q n => reports_single (past_record q (.emissionEnd p.past.length n)) rfl rfl)
    name ((p.bus channel).recipients name) (p.record (.emission cause channel name notice))
  have h := hbegin.trans hserve
  rwa [List.append_nil] at h

/-- What an update emits is what the status watcher emits while it lasts. -/
theorem reports_emitAll (hreact : ∀ l n p, Reports [] p (react l n p).2) (poll : Nat)
    (events : List StatusEvent) (hne : .reloadDisplay ∉ events) (p : Panel L μ) :
    Reports events p (p.emitAll react (.update poll) .status (statusNotices events)) := by
  induction events generalizing p with
  | nil => exact reports_course.refl p
  | cons e rest ih =>
    have he := reports_emit hreact p (.update poll) .status e.name (.status e)
    have hevents : updateEvents
        [(.emission (.update poll) .status e.name (.status e) : Happening L)] = [e] := by
      have hne' : e ≠ .reloadDisplay := by
        rintro rfl
        simp at hne
      simp [updateEvents, statusEvents, Happening.statusEvent?, Notice.statusEvent?, hne']
    rw [hevents] at he
    exact he.trans (ih (fun hm => hne (by simp [hm])) _)

theorem reports_pollPins (hreact : ∀ l n p, Reports [] p (react l n p).2) (p : Panel L μ) :
    Reports [] p (p.pollPins react).2 := by
  rw [pollPins_snd]
  have hread : Reports [] p p.readPins.2 := reports_single (past_readPins p) rfl rfl
  refine hread.trans (reports_course.strand.finishPass ?_ ?_ _ _)
  · exact fun q name => reports_emit hreact q (.pass p.past.length) .pins name (.pin ⟨name⟩)
  · exact fun q n => reports_single (past_record q (.passEnd p.past.length n)) rfl rfl

theorem reports_steady (hreact : ∀ l n p, Reports [] p (react l n p).2) :
    Steady react (Reports (L := L) (μ := μ) []) where
  toCourse := reports_course
  subscribe p channel filter listener := by
    refine reports_single (past_subscribe p channel filter listener) ?_ rfl
    cases channel <;> rfl
  unsubscribe p channel id := by
    refine reports_single (past_unsubscribe p channel id) ?_ rfl
    cases channel <;> simp only [Panel.unsubscribe] <;> split <;> rfl
  clear p channel := by
    refine reports_single (past_clear p channel) ?_ rfl
    cases channel <;> rfl
  register p pin := reports_single (past_register p pin) rfl rfl
  unregister p name := reports_single (past_unregister p name) rfl rfl
  pollPins := reports_pollPins hreact
  emit p channel name notice := reports_emit hreact p .request channel name notice
  requestReload p :=
    reports_emit hreact p .reload .status StatusEvent.reloadDisplay.name (.status .reloadDisplay)

theorem reports_react {conduct : Conduct L μ} (h : AvoidsUpdates conduct) (depth : Nat) (l : L)
    (n : Notice) (p : Panel L μ) : Reports [] p (conduct.react depth l n p).2 :=
  Lasting.reaction ⟨reports_course, reports_steady⟩ (.inl h) depth l n p

/-- From `p` to `q` the status watcher emits the changes from poll to poll, one after the other. -/
structure Orderly (p q : Panel L μ) : Prop where
  continues : p.past <+: q.past
  cached : q.status.cached = updateLedger.after p.status.cached (since p q)
  events : updateEvents (since p q) = story p.status.cached (since p q)

theorem Reports.orderly (h : Reports [] p q) : Orderly p q where
  continues := h.continues
  cached := by rw [h.cached, after_eq_of_polls h.polls]
  events := by rw [h.events, story_eq_nil h.polls]

theorem Orderly.trans (h : Orderly p q) (h' : Orderly q r) : Orderly p r where
  continues := h.continues.trans h'.continues
  cached := by
    rw [h'.cached, h.cached, since_append h.continues h'.continues, Ledger.after_append]
  events := by
    rw [since_append h.continues h'.continues, updateEvents_append, story_append, h.events,
      h'.events, h.cached]

theorem orderly_course : Course (Orderly (L := L) (μ := μ)) where
  refl p := (reports_course.refl p).orderly
  trans h h' := h.trans h'
  quiet h := (reports_course.quiet h).orderly

/-- A poll, and what its update emits. -/
theorem Reports.orderly_of_polled {answer : Poll} {policy : HomingPolicy}
    (hpast : q.past = p.past ++ [.polled answer policy])
    (hcached : q.status.cached =
      (Happening.polled (L := L) answer policy).observe p.status.cached)
    (h : Reports ((Happening.polled (L := L) answer policy).dues p.status.cached) q r) :
    Orderly p r := by
  have hsince : since p r = .polled answer policy :: since q r := by
    rw [since_append ⟨_, hpast.symm⟩ h.continues, since_eq hpast]
    rfl
  refine ⟨.trans ⟨_, hpast.symm⟩ h.continues, ?_, ?_⟩
  · rw [h.cached, hsince, Ledger.after_cons, after_eq_of_polls h.polls, hcached]
    rfl
  · rw [hsince, story, story_eq_nil h.polls, List.append_nil, ← h.events]
    rfl

theorem orderly_updateStatus (hreact : ∀ l n p, Reports [] p (react l n p).2) (p : Panel L μ) :
    Orderly p (p.updateStatus react) := by
  have hpast := past_pollSource p
  rw [updateStatus_eq]
  cases hpoll : p.pollSource.1 with
  | error e =>
    rw [hpoll] at hpast
    exact (reports_course.quiet (quiet_note _ _)).orderly_of_polled hpast rfl
  | ok s =>
    rw [hpoll] at hpast
    exact Reports.orderly_of_polled (q := p.pollSource.2.cache s) hpast rfl
      (reports_emitAll hreact _ _ (fun hm => Changes.aspect_ne_display hm rfl) _)

theorem run_orderly {conduct : Conduct L μ} (h : AvoidsUpdates conduct) (depth : Nat)
    (steps : List (Step L μ)) (p : Panel L μ) : Orderly p (p.run (conduct.react depth) steps) :=
  ((reports_steady (reports_react h depth)).weaken orderly_course (·.orderly)).run
    (orderly_updateStatus (reports_react h depth)) steps p

/-- **As long as no listener makes an update, the updates do not overlap**: from a
new panel on, the events of all updates are the changes from poll to poll, one
update after the other, and the snapshot kept is that of the last one. -/
theorem run_reports {conduct : Conduct L μ} (h : AvoidsUpdates conduct) (depth : Nat)
    (setup : Setup) (memory : μ) (steps : List (Step L μ)) :
    let p := (Panel.new setup memory).run (conduct.react depth) steps
    Linked none (updatesIn 0 p.past) ∧
      updateEvents p.past = (updatesIn 0 p.past).flatMap (·.events) ∧
      p.status.cached = (snapshotsGot p.past).getLast? := by
  intro p
  let start : Panel L μ := Panel.new setup memory
  have hcached : updates.view start = none :=
    congrArg Core.cached (core_new (L := L) setup memory)
  obtain ⟨hsettled, hview⟩ :=
    Account.run_settled updates_permanent conduct depth setup memory steps
  rw [hcached] at hsettled hview
  obtain ⟨hlinked, hstory, hafter⟩ := linked_updatesIn hsettled
  refine ⟨hlinked, ?_, ?_⟩
  · have horderly : Orderly start p := run_orderly h depth steps start
    have hevents := horderly.events
    have hsince : since start p = p.past := since_eq (by rw [past_new, List.nil_append])
    have hnone : start.status.cached = none := hcached
    rw [hsince, hnone] at hevents
    exact hevents.trans hstory
  · rw [← map_updatesIn, List.getLast?_map]
    exact hview.trans (hafter.trans Option.or_none)

/-- Listeners that change the homing policy, ask for a reload, and panic. -/
def meddling : Conduct L μ := fun _ _ _ =>
  .perform (.setPolicy .activeAxes) fun _ =>
    .perform .requestReload fun _ => .finish (.panicked none)

theorem meddling_avoidsUpdates : AvoidsUpdates (meddling (L := L) (μ := μ)) :=
  fun _ _ _ => ⟨rfl, fun _ => ⟨rfl, fun _ => trivial⟩⟩

/-- Two snapshots, one got after a failed poll. -/
def briefScript : List Poll :=
  [.ok { runState := .on, interpState := .reading, homed := [true, false, true] },
    .error (.unavailable "restart"), .ok { runState := .estop, homed := [false] }]

end Panel

end MachinePanel
