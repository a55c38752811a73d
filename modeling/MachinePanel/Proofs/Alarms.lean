/-
The alarms of a clock, whatever drives it. Alarms go off sooner or later,
callbacks take their time, and meanwhile anyone may start and stop the clock,
the callbacks themselves included; even an alarm that was replaced may still go
off, and calls of several alarms may overlap. `Occurrence` lists what can
happen, and `Drive` keeps the account of it.

`run_inForce` says that ticks go to the newest start alone, for as long as it
is in force (`InForce`), and how many there can be if alarms keep their
deadlines. One invariant carries it (`Tracked`): the clock runs exactly if the
log has a start in force, and only one alarm has its number.
-/
import MachinePanel.Clock
import Mathlib.Data.List.Induction
import Mathlib.Data.List.Perm.Basic

namespace MachinePanel.Clock

variable {κ : Type}

/-- What can happen to a clock that is being driven. -/
inductive Occurrence (κ : Type) where
  /-- Time passes. -/
  | pass (duration : Nanos)
  /-- Someone starts the clock. -/
  | start (callback : κ)
  /-- Someone stops it. -/
  | stop
  /-- The alarm that is set goes off. -/
  | goOff
  /-- An alarm that was replaced goes off all the same. -/
  | straggle (alarm : Alarm κ)
  /-- A callback returns, the alarm at this place among those that are calling.
  It is due next at the deadline, with the callback as it has become. -/
  | returns (place : Nat) (again : Bool) (deadline : Nanos) (callback : κ)

/-- What is written down about an occurrence. -/
inductive Entry (κ : Type) where
  | started (at_ : Nanos) (number : Nat) (callback : κ)
  | refused
  | stopped (at_ : Nanos) (wasRunning : Bool)
  | ticked (at_ : Nanos) (alarm : Alarm κ)
  | expired (alarm : Alarm κ)
  | returned (alarm : Alarm κ) (again : Bool) (next : Alarm κ)

namespace Entry

def isStart : Entry κ → Bool
  | started .. => true
  | _ => false

/-- A tick was delivered. -/
def isTick : Entry κ → Bool
  | ticked .. => true
  | _ => false

/-- The start of a number is over: a newer one has succeeded, someone has
stopped the clock, or its own callback does not want to be called again. -/
def ends (number : Nat) : Entry κ → Bool
  | started .. | stopped .. => true
  | returned alarm again _ => alarm.number == number && !again
  | _ => false

/-- The callback of a start, as its own calls have left it. -/
def callbackAfter (number : Nat) (callback : κ) : Entry κ → κ
  | returned alarm _ next => if alarm.number = number then next.callback else callback
  | _ => callback

/-- Alarms go off no earlier than they are due, and are due again no sooner
than a period after the last time. -/
def isPunctual (period : Nanos) : Entry κ → Bool
  | ticked at_ alarm => alarm.deadline ≤ at_
  | returned alarm again next => !again || alarm.deadline + period ≤ next.deadline
  | _ => true

end Entry

/-- The start of this number is the newest that has succeeded, it is not over,
and this is its callback. -/
def InForce (log : List (Entry κ)) (number : Nat) (callback : κ) : Prop :=
  ∃ before at_ given since, log = before ++ .started at_ number given :: since ∧
    (∀ e ∈ since, e.ends number = false) ∧
    callback = since.foldl (Entry.callbackAfter number) given

/-- A clock that is being driven, with the alarms whose callbacks have not
returned, and the log so far. -/
structure Drive (κ : Type) where
  clock : Clock κ
  now : Nanos := 0
  calling : List (Alarm κ) := []
  log : List (Entry κ) := []

namespace Drive

/-- Adds to the log. -/
def write (d : Drive κ) (e : Entry κ) : Drive κ :=
  { d with log := d.log ++ [e] }

/-- An alarm goes off, and calls if it may. -/
def ring (d : Drive κ) (a : Alarm κ) : Drive κ :=
  let (delivers, clock) := d.clock.goOff a
  if delivers then { d with clock, calling := d.calling ++ [a] }.write (.ticked d.now a)
  else { d with clock }.write (.expired a)

/-- What becomes of the clock. What cannot happen as things are changes nothing. -/
def step (d : Drive κ) : Occurrence κ → Drive κ
  | .pass duration => { d with now := d.now + duration }
  | .start callback =>
    let (started, clock) := d.clock.start d.now callback
    { d with clock }.write
      (if started then .started d.now clock.generation callback else .refused)
  | .stop =>
    let (wasRunning, clock) := d.clock.stop
    { d with clock }.write (.stopped d.now wasRunning)
  | .goOff =>
    match d.clock.alarm with
    | none => d
    | some a => d.ring a
  | .straggle a => if a.number < d.clock.generation then d.ring a else d
  | .returns place again deadline callback =>
    match d.calling[place]? with
    | none => d
    | some a =>
      let next := { a with deadline, callback }
      let clock := d.clock.settle next again
      { d with clock, calling := d.calling.eraseIdx place }.write (.returned a again next)

/-- A clock that was just made. -/
def new (period : Nanos) : Drive κ where
  clock := .ofPeriod period

/-- What becomes of the clock as one thing happens after the other. -/
def run (d : Drive κ) (occurrences : List (Occurrence κ)) : Drive κ :=
  occurrences.foldl step d

end Drive

/-! ## Starts in force -/

variable {log : List (Entry κ)} {e : Entry κ} {n : Nat} {callback : κ}

theorem inForce_started (log : List (Entry κ)) (at_ : Nanos) (n : Nat) (callback : κ) :
    InForce (log ++ [.started at_ n callback]) n callback :=
  ⟨log, at_, callback, [], rfl, by simp, rfl⟩

theorem InForce.concat (h : InForce log n callback) (he : e.ends n = false) :
    InForce (log ++ [e]) n (e.callbackAfter n callback) := by
  obtain ⟨before, at_, given, since, rfl, hsince, rfl⟩ := h
  refine ⟨before, at_, given, since ++ [e], by simp, fun x hx => ?_, by simp⟩
  rcases List.mem_append.1 hx with hx | hx
  · exact hsince x hx
  · rw [List.mem_singleton.1 hx]
    exact he

theorem append_cons_eq_concat {before since : List (Entry κ)} {x : Entry κ}
    (h : log ++ [e] = before ++ x :: since) :
    (log = before ∧ x = e ∧ since = []) ∨
      ∃ earlier, since = earlier ++ [e] ∧ log = before ++ x :: earlier := by
  rcases List.eq_nil_or_concat since with rfl | ⟨earlier, last, rfl⟩
  · obtain ⟨rfl, hx⟩ := List.append_inj' h rfl
    exact .inl ⟨rfl, by simpa using hx.symm, rfl⟩
  · rw [List.concat_eq_append] at h ⊢
    rw [← List.cons_append, ← List.append_assoc] at h
    obtain ⟨rfl, hx⟩ := List.append_inj' h rfl
    exact .inr ⟨earlier, by simpa using hx.symm, rfl⟩

/-- How a start comes to be in force: it was just made, or it was before and goes on. -/
theorem InForce.of_concat (h : InForce (log ++ [e]) n callback) :
    (∃ at_, e = .started at_ n callback) ∨
      ∃ callback', InForce log n callback' ∧ e.ends n = false ∧
        callback = e.callbackAfter n callback' := by
  obtain ⟨before, at_, given, since, hlog, hsince, rfl⟩ := h
  rcases append_cons_eq_concat hlog with ⟨-, rfl, rfl⟩ | ⟨earlier, rfl, rfl⟩
  · exact .inl ⟨at_, rfl⟩
  · refine .inr ⟨_, ⟨before, at_, given, earlier, rfl, fun x hx => hsince x (by simp [hx]), rfl⟩,
      hsince e (by simp), by simp⟩

/-! ## What an occurrence does -/

namespace Drive

variable {d d' : Drive κ} {added : List (Entry κ)}

/-- What a clock that is being driven can become, with what is added to the log. -/
inductive Moves (d : Drive κ) : List (Entry κ) → Drive κ → Prop where
  | pass (duration : Nanos) : Moves d [] { d with now := d.now + duration }
  | started (callback : κ) (h : d.clock.running = false) :
      Moves d [.started d.now (d.clock.generation + 1) callback]
        { d with
          clock :=
            { d.clock with
              running := true
              generation := d.clock.generation + 1
              alarm := some ⟨d.clock.generation + 1, d.now + d.clock.period, callback⟩ }
          log := d.log ++ [.started d.now (d.clock.generation + 1) callback] }
  | refused (h : d.clock.running = true) :
      Moves d [.refused] { d with log := d.log ++ [.refused] }
  | stopped : Moves d [.stopped d.now d.clock.running]
      { d with
        clock := { d.clock with running := false }
        log := d.log ++ [.stopped d.now d.clock.running] }
  | ticked {a : Alarm κ} (ha : d.clock.alarm = some a) (h : d.clock.running = true) :
      Moves d [.ticked d.now a]
        { d with
          clock := { d.clock with ticks := d.clock.ticks + 1, alarm := none }
          calling := d.calling ++ [a]
          log := d.log ++ [.ticked d.now a] }
  | expired {a : Alarm κ} (ha : d.clock.alarm = some a) (h : d.clock.running = false) :
      Moves d [.expired a]
        { d with clock := { d.clock with alarm := none }, log := d.log ++ [.expired a] }
  | straggled {a : Alarm κ} (h : a.number < d.clock.generation) :
      Moves d [.expired a] { d with log := d.log ++ [.expired a] }
  | again {a next : Alarm κ} {others : List (Alarm κ)} (ha : d.calling.Perm (a :: others))
      (hnumber : a.number = d.clock.generation) (hnext : next.number = a.number) :
      Moves d [.returned a true next]
        { d with
          clock := { d.clock with alarm := some next }
          calling := others
          log := d.log ++ [.returned a true next] }
  | done {a next : Alarm κ} {others : List (Alarm κ)} (ha : d.calling.Perm (a :: others))
      (hnumber : a.number = d.clock.generation) :
      Moves d [.returned a false next]
        { d with
          clock := { d.clock with running := false }
          calling := others
          log := d.log ++ [.returned a false next] }
  | superseded {a next : Alarm κ} {others : List (Alarm κ)} (again : Bool)
      (ha : d.calling.Perm (a :: others)) (hnumber : a.number ≠ d.clock.generation) :
      Moves d [.returned a again next]
        { d with calling := others, log := d.log ++ [.returned a again next] }

theorem Moves.log_eq (h : d.Moves added d') : d'.log = d.log ++ added := by
  cases h <;> simp

theorem Moves.period_eq (h : d.Moves added d') : d'.clock.period = d.clock.period := by
  cases h <;> rfl

theorem perm_of_getElem? {place : Nat} {a : Alarm κ} (ha : d.calling[place]? = some a) :
    d.calling.Perm (a :: d.calling.eraseIdx place) := by
  obtain ⟨hlt, rfl⟩ := List.getElem?_eq_some_iff.1 ha
  exact (List.getElem_cons_eraseIdx_perm hlt).symm

theorem moves_ring {a : Alarm κ} (ha : d.clock.alarm = some a)
    (hnumber : a.number = d.clock.generation) : ∃ added, d.Moves added (d.ring a) := by
  unfold ring goOff
  rw [if_pos hnumber]
  by_cases hr : d.clock.running = true
  · rw [if_pos hr]
    exact ⟨_, .ticked ha hr⟩
  · rw [if_neg hr]
    exact ⟨_, .expired ha (Bool.eq_false_iff.2 hr)⟩

theorem moves_returns {place : Nat} {a : Alarm κ} (ha : d.calling[place]? = some a) (again : Bool)
    (deadline : Nanos) (callback : κ) :
    ∃ added, d.Moves added (d.step (.returns place again deadline callback)) := by
  have hperm := perm_of_getElem? ha
  simp only [step, ha]
  by_cases hnumber : a.number = d.clock.generation
  · cases again with
    | true =>
      simp only [settle, hnumber, if_true]
      exact ⟨_, .again hperm hnumber hnumber.symm⟩
    | false =>
      simp only [settle, hnumber, if_true, Bool.false_eq_true, if_false]
      exact ⟨_, .done hperm hnumber⟩
  · simp only [settle, hnumber, if_false]
    exact ⟨_, .superseded again hperm hnumber⟩

/-- Everything an occurrence can do, given that the alarm that is set is the newest. -/
theorem moves_step (h : ∀ a, d.clock.alarm = some a → a.number = d.clock.generation)
    (o : Occurrence κ) : ∃ added, d.Moves added (d.step o) := by
  cases o with
  | pass duration => exact ⟨_, .pass duration⟩
  | start callback =>
    cases hr : d.clock.running with
    | true =>
      simp only [step, start_of_running hr]
      exact ⟨_, .refused hr⟩
    | false =>
      simp only [step, start_of_stopped hr]
      exact ⟨_, .started callback hr⟩
  | stop => exact ⟨_, .stopped⟩
  | goOff =>
    cases ha : d.clock.alarm with
    | none =>
      simp only [step, ha]
      exact ⟨_, .pass 0⟩
    | some a =>
      simp only [step, ha]
      exact moves_ring ha (h a ha)
  | straggle a =>
    simp only [step]
    split
    · next hlt =>
      simp only [ring, goOff_of_superseded (Nat.ne_of_lt hlt)]
      exact ⟨_, .straggled hlt⟩
    · exact ⟨_, .pass 0⟩
  | returns place again deadline callback =>
    cases ha : d.calling[place]? with
    | none =>
      simp only [step, ha]
      exact ⟨_, .pass 0⟩
    | some a => exact moves_returns ha again deadline callback

/-! ## The invariant -/

/-- The clock and its alarms are as the log tells. -/
structure Tracked (d : Drive κ) : Prop where
  starts : d.clock.generation = d.log.countP Entry.isStart
  ticks : d.clock.ticks = d.log.countP Entry.isTick
  newest : ∀ a, d.clock.alarm = some a → a.number = d.clock.generation
  older : ∀ a ∈ d.calling, a.number ≤ d.clock.generation
  /-- The newest alarm is either set or calling, and only once. -/
  single : (d.clock.alarm.toList ++ d.calling).countP (·.number == d.clock.generation) ≤ 1
  running : d.clock.running = true → ∃ callback, InForce d.log d.clock.generation callback
  inForce : ∀ n callback, InForce d.log n callback →
    d.clock.running = true ∧ n = d.clock.generation ∧
      ∀ a, d.clock.alarm = some a → a.callback = callback

theorem tracked_new (period : Nanos) : (new period : Drive κ).Tracked where
  starts := rfl
  ticks := rfl
  newest := nofun
  older := nofun
  single := Nat.zero_le _
  running := nofun
  inForce n callback h := by
    obtain ⟨before, at_, given, since, hlog, -, -⟩ := h
    simp [new] at hlog

theorem Tracked.starts_moves (h : d.Tracked) (hm : d.Moves added d') :
    d'.clock.generation = d'.log.countP Entry.isStart := by
  have hs := h.starts
  cases hm <;> simp [Entry.isStart, hs]

theorem Tracked.ticks_moves (h : d.Tracked) (hm : d.Moves added d') :
    d'.clock.ticks = d'.log.countP Entry.isTick := by
  have ht := h.ticks
  cases hm <;> simp [Entry.isTick, ht]

theorem Tracked.newest_moves (h : d.Tracked) (hm : d.Moves added d') :
    ∀ a, d'.clock.alarm = some a → a.number = d'.clock.generation := by
  have hn := h.newest
  cases hm with
  | started callback hr => rintro a ⟨⟩; rfl
  | ticked | expired => nofun
  | again ha hnumber hnext => rintro a ⟨⟩; exact hnext.trans hnumber
  | _ => exact hn

theorem Tracked.older_moves (h : d.Tracked) (hm : d.Moves added d') :
    ∀ a ∈ d'.calling, a.number ≤ d'.clock.generation := by
  have ho := h.older
  cases hm with
  | started callback hr => exact fun a ha => Nat.le_succ_of_le (ho a ha)
  | ticked ha hr =>
    intro b hb
    rcases List.mem_append.1 hb with hb | hb
    · exact ho b hb
    · rw [List.mem_singleton.1 hb]
      exact Nat.le_of_eq (h.newest _ ha)
  | again ha | done ha | superseded _ ha =>
    exact fun b hb => ho b (ha.mem_iff.2 (List.mem_cons_of_mem _ hb))
  | _ => exact ho

theorem Tracked.single_moves (h : d.Tracked) (hm : d.Moves added d') :
    (d'.clock.alarm.toList ++ d'.calling).countP (·.number == d'.clock.generation) ≤ 1 := by
  have hs := h.single
  rw [List.countP_append] at hs
  cases hm with
  | started callback hr =>
    have hzero : d.calling.countP (·.number == d.clock.generation + 1) = 0 :=
      List.countP_eq_zero.2 fun a ha => by
        have := h.older a ha
        simp
        omega
    simp [hzero]
  | ticked ha hr =>
    rw [ha] at hs
    simpa [List.countP_cons, Nat.add_comm] using hs
  | expired ha hr =>
    simp only [Option.toList_none, List.nil_append]
    omega
  | again ha hnumber hnext =>
    rw [ha.countP_eq, List.countP_cons, if_pos (by simpa using hnumber)] at hs
    simp only [Option.toList_some, List.singleton_append, List.countP_cons]
    rw [if_pos (by simp [hnext, hnumber])]
    omega
  | done ha | superseded _ ha =>
    rw [ha.countP_eq, List.countP_cons] at hs
    simp only [List.countP_append]
    omega
  | _ => rwa [List.countP_append]

theorem Tracked.running_moves (h : d.Tracked) (hm : d.Moves added d') :
    d'.clock.running = true → ∃ callback, InForce d'.log d'.clock.generation callback := by
  intro hr'
  cases hm with
  | pass => exact h.running hr'
  | started callback hr => exact ⟨callback, inForce_started ..⟩
  | stopped | done => cases hr'
  | superseded again ha hnumber =>
    obtain ⟨callback, hf⟩ := h.running hr'
    exact ⟨_, hf.concat (by simp [Entry.ends, hnumber])⟩
  | refused | ticked | expired | straggled | again =>
    obtain ⟨callback, hf⟩ := h.running hr'
    exact ⟨_, hf.concat (by simp [Entry.ends])⟩

theorem Tracked.inForce_moves (h : d.Tracked) (hm : d.Moves added d') :
    ∀ n callback, InForce d'.log n callback →
      d'.clock.running = true ∧ n = d'.clock.generation ∧
        ∀ a, d'.clock.alarm = some a → a.callback = callback := by
  intro n callback hf
  have hbefore := h.inForce n
  cases hm with
  | pass => exact hbefore callback hf
  | started callback' hr =>
    rcases hf.of_concat with ⟨at_, heq⟩ | ⟨-, -, he, -⟩
    · cases heq
      refine ⟨rfl, rfl, ?_⟩
      rintro a ⟨⟩
      rfl
    · cases he
  | stopped =>
    rcases hf.of_concat with ⟨at_, heq⟩ | ⟨-, -, he, -⟩
    · cases heq
    · cases he
  | refused | straggled =>
    rcases hf.of_concat with ⟨at_, heq⟩ | ⟨_, hf', -, rfl⟩
    · cases heq
    · exact hbefore _ hf'
  | ticked | expired =>
    rcases hf.of_concat with ⟨at_, heq⟩ | ⟨_, hf', -, rfl⟩
    · cases heq
    · exact ⟨(hbefore _ hf').1, (hbefore _ hf').2.1, nofun⟩
  | again ha hnumber hnext =>
    rcases hf.of_concat with ⟨at_, heq⟩ | ⟨_, hf', -, rfl⟩
    · cases heq
    · obtain ⟨hr, rfl, -⟩ := hbefore _ hf'
      refine ⟨hr, rfl, ?_⟩
      rintro b ⟨⟩
      simp [Entry.callbackAfter, hnumber]
  | done ha hnumber =>
    -- The start in force was that of the newest alarm, which has just ended it.
    rcases hf.of_concat with ⟨at_, heq⟩ | ⟨_, hf', he, -⟩
    · cases heq
    · obtain ⟨-, rfl, -⟩ := hbefore _ hf'
      simp [Entry.ends, hnumber] at he
  | superseded again ha hnumber =>
    rcases hf.of_concat with ⟨at_, heq⟩ | ⟨_, hf', -, rfl⟩
    · cases heq
    · obtain ⟨hr, rfl, hcallback⟩ := hbefore _ hf'
      exact ⟨hr, rfl, by simpa [Entry.callbackAfter, hnumber] using hcallback⟩

theorem Tracked.moves (h : d.Tracked) (hm : d.Moves added d') : d'.Tracked where
  starts := h.starts_moves hm
  ticks := h.ticks_moves hm
  newest := h.newest_moves hm
  older := h.older_moves hm
  single := h.single_moves hm
  running := h.running_moves hm
  inForce := h.inForce_moves hm

/-! ## The pace of ticks -/

/-- So many ticks came since a moment, each a period after the other, and the
next one will take a period more. -/
structure Paced (d : Drive κ) (since : Nanos) (ticks : Nat) : Prop where
  now : since + ticks * d.clock.period ≤ d.now
  alarm : ∀ a, d.clock.alarm = some a → since + (ticks + 1) * d.clock.period ≤ a.deadline
  calling : ∀ a ∈ d.calling, a.number = d.clock.generation →
    since + ticks * d.clock.period ≤ a.deadline

theorem add_succ_mul_le {t u period : Nanos} {n : Nat} (h : t + n * period + period ≤ u) :
    t + (n + 1) * period ≤ u := by
  rwa [Nat.add_mul, Nat.one_mul, ← Nat.add_assoc]

/-- While an alarm is set, none of its number is calling. -/
theorem Tracked.number_ne_of_alarm (h : d.Tracked) {a b : Alarm κ} (ha : d.clock.alarm = some a)
    (hb : b ∈ d.calling) : b.number ≠ d.clock.generation := by
  intro hnumber
  have hs := h.single
  have hpos : 0 < d.calling.countP (·.number == d.clock.generation) :=
    List.countP_pos_iff.2 ⟨b, hb, by simpa using hnumber⟩
  have hnewest : (a.number == d.clock.generation) = true := by simpa using h.newest a ha
  rw [ha, List.countP_append, Option.toList_some, List.countP_singleton, if_pos hnewest] at hs
  omega

theorem paced_started {at_ : Nanos} {n : Nat} {callback : κ}
    (hm : d.Moves [.started at_ n callback] d') (h : d.Tracked) : d'.Paced at_ 0 := by
  cases hm with
  | started _ hr =>
    refine ⟨by simp, ?_, fun b hb hnumber => ?_⟩
    · rintro a ⟨⟩
      simp
    · have := h.older b hb
      simp at hnumber
      omega

theorem Paced.moves {since : Nanos} {n : Nat} (h : d.Paced since n) (htracked : d.Tracked)
    (hm : d.Moves added d') (hp : ∀ e ∈ added, e.isPunctual d.clock.period = true) :
    d'.Paced since (n + added.countP Entry.isTick) := by
  obtain ⟨hnow, halarm, hcalling⟩ := h
  cases hm with
  | pass duration => exact ⟨Nat.le_trans hnow (Nat.le_add_right _ _), halarm, hcalling⟩
  | started callback hr =>
    refine ⟨hnow, ?_, fun b hb hnumber => ?_⟩
    · rintro a ⟨⟩
      exact add_succ_mul_le (Nat.add_le_add_right hnow _)
    · have := htracked.older b hb
      simp at hnumber
      omega
  | @ticked a ha hr =>
    have hdue : a.deadline ≤ d.now := by simpa [Entry.isPunctual] using hp
    have hset := halarm _ ha
    refine ⟨Nat.le_trans hset hdue, nofun, fun b hb hnumber => ?_⟩
    rcases List.mem_append.1 hb with hb | hb
    · exact absurd hnumber (htracked.number_ne_of_alarm ha hb)
    · rw [List.mem_singleton.1 hb]
      exact hset
  | expired ha hr => exact ⟨hnow, nofun, hcalling⟩
  | @again a next _ ha hnumber hnext =>
    have hspaced : a.deadline + d.clock.period ≤ next.deadline := by
      simpa [Entry.isPunctual] using hp
    have hdue := hcalling _ (ha.mem_iff.2 (by simp)) hnumber
    refine ⟨hnow, ?_, fun b hb => hcalling b (ha.mem_iff.2 (by simp [hb]))⟩
    rintro b ⟨⟩
    exact add_succ_mul_le (Nat.le_trans (Nat.add_le_add_right hdue _) hspaced)
  | done ha hnumber => exact ⟨hnow, halarm, fun b hb => hcalling b (ha.mem_iff.2 (by simp [hb]))⟩
  | superseded again ha hnumber =>
    exact ⟨hnow, halarm, fun b hb => hcalling b (ha.mem_iff.2 (by simp [hb]))⟩
  | refused | stopped | straggled => exact ⟨hnow, halarm, hcalling⟩

/-! ## Runs -/

theorem Tracked.step (h : d.Tracked) (o : Occurrence κ) : (d.step o).Tracked := by
  obtain ⟨added, hm⟩ := moves_step h.newest o
  exact h.moves hm

variable {period : Nanos} {occurrences : List (Occurrence κ)}

theorem run_concat (d : Drive κ) (occurrences : List (Occurrence κ)) (o : Occurrence κ) :
    d.run (occurrences ++ [o]) = (d.run occurrences).step o :=
  List.foldl_concat ..

theorem tracked_run (period : Nanos) (occurrences : List (Occurrence κ)) :
    ((new period).run occurrences).Tracked := by
  induction occurrences using List.reverseRecOn with
  | nil => exact tracked_new period
  | append_singleton earlier o ih =>
    rw [run_concat]
    exact ih.step o

theorem period_run (period : Nanos) (occurrences : List (Occurrence κ)) :
    ((new period).run occurrences).clock.period = max period (Nanos.ofMillis 1) := by
  induction occurrences using List.reverseRecOn with
  | nil => rfl
  | append_singleton earlier o ih =>
    rw [run_concat]
    obtain ⟨added, hm⟩ := moves_step (tracked_run period earlier).newest o
    exact hm.period_eq.trans ih

/-- At most one entry is written at a time. -/
theorem Moves.added_cases (h : d.Moves added d') : added = [] ∨ ∃ e, added = [e] := by
  cases h with
  | pass => exact .inl rfl
  | _ => exact .inr ⟨_, rfl⟩

/-- Every entry of the log was written when the log was what stands before it. -/
theorem exists_moves_of_log {before after : List (Entry κ)} {e : Entry κ}
    (h : ((new period).run occurrences).log = before ++ e :: after) :
    ∃ earlier d', ((new period).run earlier).log = before ∧
      ((new period).run earlier).Moves [e] d' := by
  induction occurrences using List.reverseRecOn generalizing after with
  | nil => simp [run, new] at h
  | append_singleton earlier o ih =>
    rw [run_concat] at h
    obtain ⟨added, hm⟩ := moves_step (tracked_run period earlier).newest o
    rw [hm.log_eq] at h
    rcases hm.added_cases with rfl | ⟨last, rfl⟩
    · rw [List.append_nil] at h
      exact ih h
    · rcases append_cons_eq_concat h with ⟨hbefore, rfl, -⟩ | ⟨_, -, hlog⟩
      · exact ⟨earlier, _, hbefore, hm⟩
      · exact ih hlog

/-- Since any start the ticks have kept their pace. -/
theorem paced_run {before since : List (Entry κ)} {at_ : Nanos} {n : Nat} {callback : κ}
    (hp : ∀ e ∈ ((new period).run occurrences).log,
      e.isPunctual (max period (Nanos.ofMillis 1)) = true)
    (h : ((new period).run occurrences).log = before ++ .started at_ n callback :: since) :
    ((new period).run occurrences).Paced at_ (since.countP Entry.isTick) := by
  induction occurrences using List.reverseRecOn generalizing since with
  | nil => simp [run, new] at h
  | append_singleton earlier o ih =>
    rw [run_concat] at h hp ⊢
    have htracked := tracked_run period earlier
    obtain ⟨added, hm⟩ := moves_step htracked.newest o
    have hlog := hm.log_eq
    rw [← period_run period earlier] at hp ih
    have hpearlier : ∀ e ∈ ((new period).run earlier).log,
        e.isPunctual ((new period).run earlier).clock.period = true :=
      fun e he => hp e (by simp [hlog, he])
    have hpadded : ∀ e ∈ added, e.isPunctual ((new period).run earlier).clock.period = true :=
      fun e he => hp e (by simp [hlog, he])
    rw [hlog] at h
    rcases hm.added_cases with rfl | ⟨last, rfl⟩
    · rw [List.append_nil] at h
      exact (ih hpearlier h).moves htracked hm hpadded
    · rcases append_cons_eq_concat h with ⟨-, rfl, rfl⟩ | ⟨since', rfl, hlog'⟩
      · exact paced_started hm htracked
      · rw [List.countP_append]
        exact (ih hpearlier hlog').moves htracked hm hpadded

/-- An entry of the log is told by what stands before it. -/
theorem number_of_log {before after : List (Entry κ)} {at_ : Nanos} {n : Nat} {callback : κ}
    (h : ((new period).run occurrences).log = before ++ .started at_ n callback :: after) :
    n = before.countP Entry.isStart + 1 := by
  obtain ⟨earlier, d', hbefore, hm⟩ := exists_moves_of_log h
  have hstarts := (tracked_run period earlier).starts
  rw [hbefore] at hstarts
  cases hm with
  | started => rw [hstarts]

theorem inForce_of_log {before after : List (Entry κ)} {at_ : Nanos} {a : Alarm κ}
    (h : ((new period).run occurrences).log = before ++ .ticked at_ a :: after) :
    InForce before a.number a.callback := by
  obtain ⟨earlier, d', hbefore, hm⟩ := exists_moves_of_log h
  have htracked := tracked_run period earlier
  cases hm with
  | ticked ha hr =>
    obtain ⟨callback, hf⟩ := htracked.running hr
    obtain ⟨-, -, hcallback⟩ := htracked.inForce _ _ hf
    rw [hbefore] at hf
    rwa [htracked.newest a ha, hcallback a ha]

theorem countP_isTick_le {before since after : List (Entry κ)} {t₀ t₁ : Nanos} {n : Nat}
    {callback : κ} {wasRunning : Bool}
    (hp : ∀ e ∈ ((new period).run occurrences).log,
      e.isPunctual (max period (Nanos.ofMillis 1)) = true)
    (h : ((new period).run occurrences).log =
      before ++ .started t₀ n callback :: (since ++ .stopped t₁ wasRunning :: after)) :
    since.countP Entry.isTick ≤ (t₁ - t₀) / max period (Nanos.ofMillis 1) := by
  have hsplit : ((new period).run occurrences).log =
      (before ++ .started t₀ n callback :: since) ++ .stopped t₁ wasRunning :: after := by
    rw [h, List.append_assoc, List.cons_append]
  obtain ⟨earlier, d', hlog, hm⟩ := exists_moves_of_log hsplit
  have hpaced := paced_run (fun e he => hp e (by rw [hsplit, ← hlog]; simp [he])) hlog
  have hnow := hpaced.now
  rw [period_run] at hnow
  have hpos : 0 < max period (Nanos.ofMillis 1) :=
    Nat.lt_of_lt_of_le (by decide) (Nat.le_max_right ..)
  cases hm with
  | stopped => exact (Nat.le_div_iff_mul_le hpos).2 (Nat.le_sub_of_add_le' hnow)

/-- **Across any restarts a clock has one alarm that counts.** Every tick goes to
the callback of the newest start, while it is in force; the clock runs exactly
as long as a start is in force. A running clock is not started again, and an
alarm of an older start, whatever its callback returns, leaves the clock alone.
Every tick is counted once. If alarms keep their deadlines, then from a start to
a stop there are at most as many ticks as whole periods. -/
theorem run_inForce (period : Nanos) (occurrences : List (Occurrence κ)) :
    let d := (new period).run occurrences
    (∀ before at_ n callback after, d.log = before ++ .started at_ n callback :: after →
      n = before.countP Entry.isStart + 1) ∧
    (∀ before at_ a after, d.log = before ++ .ticked at_ a :: after →
      InForce before a.number a.callback) ∧
    (d.clock.running = true ↔ ∃ n callback, InForce d.log n callback) ∧
    (∀ callback, d.clock.running = true → d.step (.start callback) = d.write .refused) ∧
    (∀ place a again deadline callback, d.calling[place]? = some a →
      a.number < d.log.countP Entry.isStart →
      (d.step (.returns place again deadline callback)).clock = d.clock) ∧
    d.clock.ticks = d.log.countP Entry.isTick ∧
    ((∀ e ∈ d.log, e.isPunctual (max period (Nanos.ofMillis 1)) = true) →
      ∀ before t₀ n callback since t₁ wasRunning after,
        d.log = before ++ .started t₀ n callback :: (since ++ .stopped t₁ wasRunning :: after) →
        since.countP Entry.isTick ≤ (t₁ - t₀) / max period (Nanos.ofMillis 1)) := by
  intro d
  have htracked : d.Tracked := tracked_run period occurrences
  refine ⟨fun _ _ _ _ _ => number_of_log, fun _ _ _ _ => inForce_of_log, ⟨?_, ?_⟩, ?_, ?_,
    htracked.ticks, fun hp _ _ _ _ _ _ _ _ => countP_isTick_le hp⟩
  · exact fun hr => ⟨_, htracked.running hr⟩
  · rintro ⟨n, callback, hf⟩
    exact (htracked.inForce n callback hf).1
  · intro callback hr
    simp only [step, start_of_running hr]
    rfl
  · intro place a again deadline callback ha hlt
    have hnumber : a.number ≠ d.clock.generation := by
      have := htracked.starts
      omega
    simp only [step, ha, settle, if_neg hnumber]
    rfl

/-- A callback that starts the clock anew before it returns, and does not want
another call itself. -/
def restarting : List (Occurrence String) :=
  [.start "first", .pass (Nanos.ofMillis 100), .goOff, .stop, .start "second",
    .returns 0 false 0 "first", .pass (Nanos.ofMillis 100), .goOff,
    .returns 0 true (Nanos.ofMillis 300) "second", .pass (Nanos.ofMillis 50), .stop]

theorem run_inForce_restarting :
    let d := (new (Nanos.ofMillis 100)).run restarting
    (∀ e ∈ d.log, e.isPunctual (max (Nanos.ofMillis 100) (Nanos.ofMillis 1)) = true) ∧
      d.clock.ticks = 2 ∧ d.log.length = 8 ∧ InForce (d.log.take 5) 2 "second" ∧
      ((d.log.drop 4).take 3).countP Entry.isTick ≤
        (Nanos.ofMillis 250 - Nanos.ofMillis 100) / max (Nanos.ofMillis 100) (Nanos.ofMillis 1) := by
  intro d
  have hp : ∀ e ∈ d.log, e.isPunctual (max (Nanos.ofMillis 100) (Nanos.ofMillis 1)) = true := by
    decide
  obtain ⟨-, htick, -, -, -, -, hpace⟩ := run_inForce (Nanos.ofMillis 100) restarting
  exact ⟨hp, rfl, rfl, htick (d.log.take 5) _ _ (d.log.drop 6) rfl,
    hpace hp (d.log.take 3) _ _ _ ((d.log.drop 4).take 3) _ _ [] rfl⟩

end Drive

end MachinePanel.Clock
