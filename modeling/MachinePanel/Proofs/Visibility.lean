/-
What ticks make visible, and when. A tick updates the status, makes a pass over the watched
pins, and updates the elements (`Phased`): the pass reads the pins as the status update and its
listeners have left them, and the elements read them as the pass and its listeners have. What
the elements write then is for the next tick to tell: from one tick to the next a watched pin
is reported once, if the pass finds a value that differs from the one the pass before has
read, and else not at all (`tick_visibility`).
-/
import MachinePanel.Proofs.Lives
import MachinePanel.Proofs.Passes

namespace MachinePanel.Panel

variable {L μ : Type} {p q r : Panel L μ} {react : Reaction L μ} {pin : Handle}

/-! ## One tick -/

/-- The panel when a tick has updated the status, as its pass finds it. -/
def afterStatus (react : Reaction L μ) (p : Panel L μ) : Panel L μ :=
  if p.driver.hasStatus then p.updateStatus react else p

/-- The panel when a tick has made its pass, as its elements find it. -/
def afterPass (react : Reaction L μ) (p : Panel L μ) : Panel L μ :=
  ((p.afterStatus react).pollPins react).2

/-- Ticks watch the pin: they make passes, and the pin has one entry and fits the store. -/
structure Watches (pin : Handle) (p : Panel L μ) : Prop where
  watchPins : p.driver.config.watchPins = true
  enabled : p.pins.enabled = true
  fits : p.store.Fits pin
  entry : ∃ w, p.entriesOf pin.name = [w] ∧ w.pin = pin

/-- The tidings of a pass: an event for each entry whose value is news. -/
def passTidings (p : Panel L μ) : List Tiding :=
  (p.pins.list.filter fun w => w.isTold (p.store.readAs w.pin)).map fun w =>
    (.pins, w.pin.name, .pin ⟨w.pin.name⟩)

/-- A tick from `p` to `q` in its three phases, with `s` between the first and the second and
`m` between the second and the third. -/
structure Phased (p s m : Panel L μ) (report : TickReport) (q : Panel L μ) : Prop where
  /-- First the status is updated, without a report of a pass. -/
  status : p.past <+: s.past ∧ reports (since p s) = []
  /-- Then a pass reads the pins as they are when listeners to the status are through, and
  reports its news; no event of the status update is among what is emitted from now on. -/
  pass : ∃ later, since s q = .pass (s.pins.list.map (Watch.reading s.store.readAs)) :: later ∧
    reports later = s.passTidings ∧ ∀ n < s.past.length, Foreign n later
  /-- Then, when all has been emitted, the elements are updated. -/
  elements : q.past = m.past ∧
    let round := m.driver.forest.updateIn m.driver.forest.traversal m.store m.now
    q.store = round.view.store ∧ q.driver.forest = round.forest
  /-- Each of them finds its inputs as they are when listeners to the pins are through. -/
  seen : ∀ before id after, m.driver.forest.traversal = before ++ id :: after →
    let round := m.driver.forest.updateIn before m.store m.now
    ∀ e, round.forest.element? id = some e →
      e.update m.now round.view = (e.program m.now).run round.view ∧
      ∀ r ∈ (e.program m.now).reads round.view, ∀ slot, m.store.slot? r.1.name = some slot →
        slot.direction = .input → slot.type = r.1.type → r.2 = .ok slot.value
  /-- The number of changes that the tick gives is that of the events that passes emit in it. -/
  changed : report.pinsChanged = (reports (since p q)).length

theorem Watches.heeds {told : List Tiding} (h : p.Watches pin) (hheeds : Heeds pin told p q) :
    q.Watches pin where
  watchPins := by rw [hheeds.config, h.watchPins]
  enabled := hheeds.enabled h.enabled
  fits := hheeds.fits h.fits
  entry := by rw [hheeds.entries]; exact h.entry

theorem tick_eq (hwatchPins : (p.afterStatus react).driver.config.watchPins = true)
    (henabled : (p.afterStatus react).pins.enabled = true) :
    p.tick react =
      (⟨((p.afterStatus react).pollPins react).1, (p.afterPass react).updateElements.1⟩,
        (p.afterPass react).updateElements.2) := by
  have hpins : (p.afterStatus react).tickPins react = (p.afterStatus react).pollPins react :=
    if_pos (by rw [hwatchPins, henabled]; rfl)
  have htick : p.tick react =
      (⟨((p.afterStatus react).tickPins react).1,
          ((p.afterStatus react).tickPins react).2.updateElements.1⟩,
        ((p.afterStatus react).tickPins react).2.updateElements.2) := rfl
  rw [htick, hpins]
  rfl

theorem passTidings_eq (p : Panel L μ) :
    p.passTidings = (pinNotices p.readPins.1.changed).map (.pins, ·) := by
  have hchanged : p.readPins.1.changed =
      (p.pins.list.filter fun w => w.isTold (p.store.readAs w.pin)).map (·.pin.name) :=
    (WatchPass.run_eq p.store p.pins.list).2.2
  rw [hchanged, pinNotices, List.map_map, List.map_map]
  rfl

theorem heeds_updateElements (p : Panel L μ) : Heeds pin [] p p.updateElements.2 :=
  heeds_of_quiet rfl id rfl (fits_of_retainsAt ((aside_updateElements p).store pin.name))

section

variable (hreact : ∀ l n p, Heeds pin [] p (react l n p).2)
include hreact

theorem heeds_afterStatus (p : Panel L μ) : Heeds pin [] p (p.afterStatus react) := by
  unfold afterStatus
  split
  · exact heeds_updateStatus hreact p
  · exact heeds_strand.refl p

/-- What comes after the pass of a tick has read the pins. -/
theorem heeds_afterRead (p : Panel L μ) :
    Heeds pin p.passTidings p.readPins.2 (p.pollPins react).2 := by
  rw [passTidings_eq, pollPins_snd]
  exact heeds_finishPass hreact _ _ _

end

/-- What happens in a tick from its pass on. -/
theorem past_pass (hreact : ∀ l n p, Heeds pin [] p (react l n p).2) (s : Panel L μ) :
    ∃ later, (s.pollPins react).2.updateElements.2.past =
        s.past ++ .pass (s.pins.list.map (Watch.reading s.store.readAs)) :: later ∧
      reports later = s.passTidings := by
  have hread := past_readPins s
  rw [(WatchPass.run_eq s.store s.pins.list).1] at hread
  have hrest := (heeds_afterRead hreact s).trans (heeds_updateElements _)
  obtain ⟨later, hlater⟩ := hrest.continues
  have htold := hrest.told
  rw [since_eq hlater.symm, List.append_nil] at htold
  exact ⟨later, by rw [← hlater, hread, List.append_assoc]; rfl, htold⟩

/-- What passes report in a tick are the tidings of its own pass. -/
theorem reports_tick (hreact : ∀ l n p, Heeds pin [] p (react l n p).2) (h : p.Watches pin) :
    reports (since p (p.tick react).2) = (p.afterStatus react).passTidings := by
  have hstatus := heeds_afterStatus hreact p
  have hwatches := h.heeds hstatus
  obtain ⟨later, hpast, htold⟩ := past_pass hreact (p.afterStatus react)
  rw [tick_eq hwatches.watchPins hwatches.enabled, afterPass,
    since_append hstatus.continues ⟨_, hpast.symm⟩, since_eq hpast, reports,
    List.filterMap_append, ← htold]
  exact congrArg (· ++ reports later) hstatus.told

theorem grows_tick (hgrows : ∀ l n p, Grows [] p (react l n p).2) (s : Panel L μ) :
    Grows [] s (s.pollPins react).2.updateElements.2 :=
  (grows_course []).trans (grows_pollPins hgrows s) ((grows_course []).quiet rfl)

/-- **A tick that watches the pins comes in three phases.** -/
theorem phased (hreact : ∀ l n p, Heeds pin [] p (react l n p).2)
    (hgrows : ∀ l n p, Grows [] p (react l n p).2) (h : p.Watches pin) :
    Phased p (p.afterStatus react) (p.afterPass react) (p.tick react).1 (p.tick react).2 := by
  have hstatus := heeds_afterStatus hreact p
  have hwatches := h.heeds hstatus
  have htold := reports_tick hreact h
  rw [tick_eq hwatches.watchPins hwatches.enabled] at htold ⊢
  obtain ⟨later, hpast, hlater⟩ := past_pass hreact (p.afterStatus react)
  refine ⟨⟨hstatus.continues, hstatus.told⟩, ⟨later, since_eq hpast, hlater, fun n hn x hx => ?_⟩,
    ⟨rfl, rfl, rfl⟩, fun before id after _ e _ => ⟨e.update_eq_run _ _, ?_⟩, ?_⟩
  · have hforeign := (grows_tick hgrows (p.afterStatus react)).foreign hn
    rw [since_eq hpast] at hforeign
    exact hforeign x (List.mem_cons_of_mem _ hx)
  · exact PinProgram.reads_inputs _ (Forest.tracks_updateIn _ before _ _)
  · rw [htold, passTidings_eq, List.length_map, pinNotices, List.length_map]
    rfl

/-! ## From tick to tick -/

theorem entriesOf_readPins (p : Panel L μ) (name : String) :
    p.readPins.2.entriesOf name =
      (p.entriesOf name).filterMap fun w => w.absorb (p.store.readAs w.pin) := by
  have hkept : p.readPins.2.pins.list =
      p.pins.list.filterMap fun w => w.absorb (p.store.readAs w.pin) :=
    (WatchPass.run_eq p.store p.pins.list).2.1
  rw [entriesOf, hkept]
  exact (filterMap_absorb_filter_entry (fun e => e.2.name == name) _ _).symm

/-- A pass reads the pin, and leaves an entry for which that is news which differs from the
value it has read. -/
theorem Watches.readPins (h : p.Watches pin) :
    ∃ seen w, p.store.readAs pin = .ok seen ∧ p.readPins.2.entriesOf pin.name = [w] ∧
      w.pin = pin ∧ ∀ value, w.isNews value = (seen != value) := by
  obtain ⟨slot, -, hread⟩ := h.fits.readAs
  obtain ⟨w, hentries, hpin⟩ := h.entry
  obtain ⟨w', habsorb⟩ : ∃ w', w.absorb (.ok slot.value) = some w' := ⟨_, rfl⟩
  refine ⟨slot.value, w', hread, ?_, ?_, fun value => Remembers.isNews_absorb habsorb value⟩
  · rw [entriesOf_readPins, hentries, List.filterMap_cons, hpin, hread, habsorb]
    rfl
  · exact (congrArg Prod.snd (Watch.entry_absorb habsorb)).trans hpin

/-- After a tick ticks go on watching the pin, and it is news what differs from the value that
the pass of this one has read. -/
theorem Watches.tick (hreact : ∀ l n p, Heeds pin [] p (react l n p).2) (h : p.Watches pin) :
    (p.tick react).2.Watches pin ∧
      ∃ seen w, (p.afterStatus react).store.readAs pin = .ok seen ∧
        (p.tick react).2.entriesOf pin.name = [w] ∧ w.pin = pin ∧
        ∀ value, w.isNews value = (seen != value) := by
  have hs := h.heeds (heeds_afterStatus hreact p)
  obtain ⟨seen, w, hread, hentries, hpin, hnews⟩ := hs.readPins
  have hrest := (heeds_afterRead hreact (p.afterStatus react)).trans
    (heeds_updateElements _)
  have hwatches : (p.afterStatus react).readPins.2.Watches pin :=
    ⟨hs.watchPins, hs.enabled, hs.fits, w, hentries, hpin⟩
  rw [tick_eq hs.watchPins hs.enabled]
  exact ⟨hwatches.heeds hrest, seen, w, hread, hrest.entries.trans hentries, hpin, hnews⟩

theorem filter_passTidings (p : Panel L μ) (name : String) :
    p.passTidings.filter (·.2.1 == name) =
      ((p.entriesOf name).filter fun w => w.isTold (p.store.readAs w.pin)).map fun w =>
        (.pins, w.pin.name, .pin ⟨w.pin.name⟩) := by
  rw [passTidings, List.filter_map, entriesOf, List.filter_filter, List.filter_filter]
  refine congrArg _ (List.filter_congr fun w _ => ?_)
  exact Bool.and_comm _ _

/-- A tick reports a pin that has one entry once, if the value it finds is news, and else not
at all. -/
theorem Watches.reported (hreact : ∀ l n p, Heeds pin [] p (react l n p).2) (h : p.Watches pin)
    {w : Watch} (hentries : p.entriesOf pin.name = [w]) (hpin : w.pin = pin) :
    ∃ value, (p.afterStatus react).store.readAs pin = .ok value ∧
      (reports (since p (p.tick react).2)).filter (·.2.1 == pin.name) =
        if w.isNews value then [(.pins, pin.name, .pin ⟨pin.name⟩)] else [] := by
  have hstatus := heeds_afterStatus hreact p
  obtain ⟨slot, -, hread⟩ := (h.heeds hstatus).fits.readAs
  refine ⟨slot.value, hread, ?_⟩
  rw [reports_tick hreact h, filter_passTidings, hstatus.entries, hentries, List.filter_cons,
    hpin, hread]
  have htold : w.isTold (.ok slot.value) = w.isNews slot.value := rfl
  rw [htold]
  split
  · rw [List.filter_nil, List.map_singleton, hpin]
  · rfl

theorem holds_afterStatus {name : String} (hreact : ∀ l n p, Holds name p (react l n p).2)
    (p : Panel L μ) : Holds name p (p.afterStatus react) := by
  unfold afterStatus
  split
  · exact (holds_chronicle hreact).updateStatus p
  · exact holds_of_store rfl

theorem Watches.lives (hreact : ∀ l n p, Heeds pin [] p (react l n p).2) (h : p.Watches pin)
    (hlife : Lives react (·.sparesWatch pin.name = true) p q) : q.Watches pin := by
  induction hlife with
  | refl => exact h
  | tail _ hlast ih =>
    rcases hlast with hmove | rfl
    · exact ih.heeds (hmove.heeds hreact)
    · exact (ih.tick hreact).1

/-- **What a tick has its elements write is for the next tick to tell.** As long as ticks
watch a pin, and nobody else makes passes or ticks, changes what is registered under its name
or removes it, every tick comes in its three phases; and the next one reports the pin once,
if its pass finds a value that differs from the one the pass of this tick has read, and else
not at all. The value it finds is the one that this tick has left, if no one but elements
writes the pin. -/
theorem tick_visibility {conduct : Conduct L μ} {pin : Handle}
    (hconduct : SparesWatch conduct pin.name) (depth : Nat) {start p next : Panel L μ}
    (hstart : start.Watches pin)
    (hlife : Lives (conduct.react depth) (·.sparesWatch pin.name = true) start p)
    (hnext : Meanwhile (conduct.react depth) (·.sparesWatch pin.name = true)
      (p.tick (conduct.react depth)).2 next) :
    let react := conduct.react depth
    let ticked := p.tick react
    Phased p (p.afterStatus react) (p.afterPass react) ticked.1 ticked.2 ∧
    ∃ seen value, (p.afterStatus react).store.readAs pin = .ok seen ∧
      (next.afterStatus react).store.readAs pin = .ok value ∧
      (reports (since next (next.tick react).2)).filter (·.2.1 == pin.name) =
        (if seen == value then [] else [(.pins, pin.name, .pin ⟨pin.name⟩)]) ∧
      (SparesValue conduct pin.name →
        Meanwhile react (·.sparesValue pin.name = true) ticked.2 next →
        ticked.2.store.readAs pin = .ok value) := by
  intro react ticked
  have hreact := heeds_react hconduct depth
  have hgrows := grows_permanent.reaction conduct depth
  have hp := hstart.lives hreact hlife
  have hmeanwhile := heeds_meanwhile hreact hnext
  obtain ⟨hticked, seen, w, hseen, hentries, hpin, hnews⟩ := hp.tick hreact
  obtain ⟨value, hvalue, hreported⟩ :=
    (hticked.heeds hmeanwhile).reported hreact (hmeanwhile.entries.trans hentries) hpin
  refine ⟨phased hreact hgrows hp, seen, value, hseen, hvalue, ?_, fun hspares hstill => ?_⟩
  · rw [hreported, hnews, bne]
    cases seen == value <;> rfl
  · have hholds := holds_react hspares depth
    have hheld := holds_walk.trans (holds_meanwhile hholds hstill) (holds_afterStatus hholds next)
    rw [← hvalue]
    exact (hheld.readAs hticked.fits).symm

/-- A listener that has the machine drive a pin when the status changes. -/
def readying : Conduct Unit Unit := fun _ n _ =>
  match n with
  | .status _ => .perform (.drivePin "ready" (.bit true)) fun _ => .finish .returned
  | _ => .finish .returned

/-- A pin was read, and it holds this bit. -/
def isBit (b : Bool) : Except PinError Value → Bool
  | .ok (.bit held) => held == b
  | _ => false

theorem eq_of_isBit {b : Bool} {result : Except PinError Value} (h : isBit b result = true) :
    result = .ok (.bit b) := by
  unfold isBit at h
  split at h
  · rw [beq_iff_eq] at h
    rw [h]
  · cases h

/-- The pin of a check button. -/
def stopPin : Handle := ⟨"stop", .output, .bit⟩

/-- The check button is added, and its pin is watched. -/
def watchedPanel : Panel Unit Unit :=
  (Panel.new {} ()).run (readying.react 1)
    [.operation (.publish {}), .operation (.subscribe .status .any ()),
      .operation (.newPin ⟨"ready", .input, .bit⟩), .operation (.newPin stopPin),
      .operation (.addElement none "checkbutton" { pinName := some "stop" }),
      .operation (.setPinsEnabled true)]

/-- The check button is toggled after a tick. -/
def toggledPanel : Panel Unit Unit :=
  watchedPanel.run (readying.react 1) [.operation .tick, .operation (.actOn 0 .toggle 1)]

/-- After the next tick it is toggled back. -/
def nextPanel : Panel Unit Unit :=
  Operation.perform (readying.react 1) (.actOn 0 .toggle 1)
    (toggledPanel.tick (readying.react 1)).2

theorem readying_spares {name : String} (hne : "ready" ≠ name) :
    SparesWatch readying name ∧ SparesValue readying name ∧ LeavesClock readying := by
  refine ⟨fun l n q => ?_, fun l n q => ?_, fun l n q => ?_⟩
  all_goals
    cases n with
    | status e => exact ⟨by simp [Operation.sparesWatch, Operation.sparesValue,
        Operation.startsWatchClock, hne], fun _ => trivial⟩
    | pin | message => trivial

theorem tick_visibility_toggled :
    SparesWatch readying stopPin.name ∧ watchedPanel.Watches stopPin ∧
      Lives (readying.react 1) (·.sparesWatch stopPin.name = true) watchedPanel toggledPanel ∧
      Meanwhile (readying.react 1) (·.sparesWatch stopPin.name = true)
        (toggledPanel.tick (readying.react 1)).2 nextPanel ∧
      (toggledPanel.tick (readying.react 1)).2.store.readAs stopPin = .ok (.bit true) ∧
      (reports (since nextPanel (nextPanel.tick (readying.react 1)).2)).filter (·.2.1 == "stop") =
        [(.pins, "stop", .pin ⟨"stop"⟩)] := by
  obtain ⟨hconduct, hspares, hclock⟩ := readying_spares (show "ready" ≠ stopPin.name by decide)
  have hstart : watchedPanel.Watches stopPin := ⟨rfl, rfl, ⟨_, rfl, rfl, rfl⟩, _, rfl, rfl⟩
  have hlife : Lives (readying.react 1) (·.sparesWatch stopPin.name = true) watchedPanel
      toggledPanel := by
    refine lives_run hclock 1 (fun op hop => ?_) rfl
    simp only [List.mem_cons, List.not_mem_nil, or_false, Step.operation.injEq] at hop
    rcases hop with rfl | rfl
    · exact .inr rfl
    · exact .inl ⟨rfl, rfl⟩
  have hnext : Meanwhile (readying.react 1) (·.sparesWatch stopPin.name = true)
      (toggledPanel.tick (readying.react 1)).2 nextPanel := .single (.perform _ rfl)
  have hstill : Meanwhile (readying.react 1) (·.sparesValue stopPin.name = true)
      (toggledPanel.tick (readying.react 1)).2 nextPanel := .single (.perform _ rfl)
  obtain ⟨-, seen, value, hseen, -, hreported, hleft⟩ :=
    tick_visibility hconduct 1 hstart hlife hnext
  have hfound : (toggledPanel.afterStatus (readying.react 1)).store.readAs stopPin =
      .ok (.bit false) := eq_of_isBit (by decide +kernel)
  have hwritten : (toggledPanel.tick (readying.react 1)).2.store.readAs stopPin =
      .ok (.bit true) := eq_of_isBit (by decide +kernel)
  rw [hfound] at hseen
  cases hseen
  have hvalue := hleft hspares hstill
  rw [hwritten] at hvalue
  cases hvalue
  exact ⟨hconduct, hstart, hlife, hnext, hwritten, hreported⟩

end MachinePanel.Panel
