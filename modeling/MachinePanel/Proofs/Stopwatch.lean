/-
The time that a timer shows. The timer keeps what it has counted until it was last started
or set back, and when that was, and works out the rest when it is looked at. What it shows is
nevertheless the sum that one would expect: of the intervals between its updates, those count
that begin with the run pin high, from the last rise of the reset pin on (`counted`).

An update takes in both pins at once or, if one of them cannot be read, nothing. After each
update the timer shows what is counted, and would go on to count the time since then if the run
pin is high (`Shows`). To take in another sample keeps this so, in whichever way the two pins
change together (`Shows.sample`).

The text is written by updates alone, while the elapsed time is worked out whenever it is asked
for. So the two agree at the moment of an update, and from then on as long as the timer stands
still; while it runs the elapsed time moves on without the text (`elapsed_eq_shown_iff`).
-/
import MachinePanel.Element.Indicator
import Mathlib.Algebra.BigOperators.Intervals
import Mathlib.Data.Nat.Find

namespace MachinePanel.Timer

/-- What an update takes in, and when. -/
structure Sample where
  time : Nanos
  reset : Bool
  run : Bool

/-- What there is to take in, if both pins can be read. -/
def sampled? (t : Timer) (now : Nanos) (view : PinView) : Option Sample :=
  match view.read t.reset with
  | .error _ => none
  | .ok (reset, view) =>
    match view.read t.run with
    | .error _ => none
    | .ok (run, _) => some ⟨now, reset.asBool, run.asBool⟩

/-- The timer after several updates. -/
def updateAll (t : Timer) (updates : List (Nanos × PinView)) : Timer :=
  updates.foldl (fun t u => (t.update u.1 u.2).element) t

/-- What the updates take in that succeed. -/
def samples (t : Timer) (updates : List (Nanos × PinView)) : List Sample :=
  updates.filterMap fun u => t.sampled? u.1 u.2

/-- The timer after several samples. -/
def sampleAll (t : Timer) (samples : List Sample) : Timer :=
  samples.foldl (fun t s => t.sample s.reset s.run s.time) t

/-! ## What is to be counted -/

/-- The time of a sample. -/
def timeAt (samples : List Sample) (i : Nat) : Nanos :=
  (samples[i]?.map Sample.time).getD 0

/-- The run pin is high in a sample. -/
def runsAt (samples : List Sample) (i : Nat) : Bool :=
  samples[i]?.any Sample.run

/-- The reset pin is high in a sample. -/
def resetAt (samples : List Sample) (i : Nat) : Bool :=
  samples[i]?.any Sample.reset

/-- The reset pin is high in a sample, and was low in the one before, as it was before the
first. -/
def risesAt (samples : List Sample) : Nat → Bool
  | 0 => resetAt samples 0
  | i + 1 => resetAt samples (i + 1) && !resetAt samples i

/-- The last sample up to the `n`th in which the reset pin rises, or else the first one. -/
def origin (samples : List Sample) (n : Nat) : Nat :=
  Nat.findGreatest (fun i => risesAt samples i = true) n

/-- The time up to the `n`th sample that counts: all intervals since the origin that begin with
the run pin high. -/
def counted (samples : List Sample) (n : Nat) : Nanos :=
  ∑ i ∈ Finset.Ico (origin samples n) n with runsAt samples i,
    (timeAt samples (i + 1) - timeAt samples i)

variable {t : Timer} {now later : Nanos} {view : PinView} {samples : List Sample}
  {last s : Sample} {count : Nanos} {n : Nat}

theorem counted_rise (h : risesAt samples n = true) : counted samples n = 0 := by
  have horigin : origin samples n = n := Nat.findGreatest_eq h
  rw [counted, horigin, Finset.Ico_self]
  rfl

theorem counted_succ (h : risesAt samples (n + 1) = false) : counted samples (n + 1) =
    counted samples n +
      if runsAt samples n then timeAt samples (n + 1) - timeAt samples n else 0 := by
  have horigin : origin samples (n + 1) = origin samples n :=
    Nat.findGreatest_of_not (by simp [h])
  simp only [counted, horigin, Finset.sum_filter]
  exact Finset.sum_Ico_succ_top (Nat.findGreatest_le n) _

/-! ## One update -/

/-- An update takes in what there is to take in, or fails and changes nothing. -/
theorem update_eq (t : Timer) (now : Nanos) (view : PinView) :
    match t.sampled? now view with
    | some s => (t.update now view).element = t.sample s.reset s.run s.time ∧
        (t.update now view).error = none ∧ s.time = now
    | none => (t.update now view).element = t ∧ (t.update now view).error ≠ none := by
  simp only [sampled?, update, PinView.reading]
  cases view.read t.reset with
  | error e => simp
  | ok r =>
    simp only
    cases r.2.read t.run with
    | error e => simp
    | ok r' => simp

theorem sampled?_sample (t : Timer) (s : Sample) :
    (t.sample s.reset s.run s.time).sampled? = t.sampled? := by
  have hpins : (t.sample s.reset s.run s.time).reset = t.reset ∧
      (t.sample s.reset s.run s.time).run = t.run := by
    simp only [sample, sampleRun, sampleReset]
    split_ifs <;> exact ⟨rfl, rfl⟩
  funext now view
  rw [sampled?, hpins.1, hpins.2, sampled?]

/-- Updates that fail can be left out. -/
theorem updateAll_eq (t : Timer) (updates : List (Nanos × PinView)) :
    t.updateAll updates = t.sampleAll (t.samples updates) := by
  induction updates generalizing t with
  | nil => rfl
  | cons u rest ih =>
    have hupdate := t.update_eq u.1 u.2
    rw [updateAll, List.foldl_cons, Timer.samples, List.filterMap_cons]
    cases hsampled : t.sampled? u.1 u.2 with
    | none =>
      rw [hsampled] at hupdate
      rw [hupdate.1]
      exact ih t
    | some s =>
      rw [hsampled] at hupdate
      rw [hupdate.1]
      refine (ih _).trans ?_
      rw [Timer.samples, sampled?_sample]
      rfl

/-! ## The count -/

/-- The timer has taken in this sample last, and shows what is counted. -/
structure Shows (t : Timer) (last : Sample) (count : Nanos) : Prop where
  lastReset : t.lastReset = last.reset
  lastRun : t.lastRun = last.run
  started : last.run = true → t.started ≤ last.time
  elapsed : t.elapsed last.time = count
  text : t.text = Nanos.hoursMinutesSeconds count

theorem shows_new (base : String) (built : Nanos) : (new base built).Shows ⟨0, false, false⟩ 0 :=
  ⟨rfl, rfl, nofun, rfl, rfl⟩

/-- While the run pin is high the count goes on. -/
theorem Shows.elapsed_later (h : t.Shows last count) (hlater : last.time ≤ later) :
    t.elapsed later = count + if last.run then later - last.time else 0 := by
  have helapsed := h.elapsed
  simp only [Timer.elapsed, h.lastRun] at helapsed ⊢
  by_cases hrun : last.run = true
  · have hstarted := h.started hrun
    rw [if_pos hrun] at helapsed ⊢
    rw [if_pos hrun, ← helapsed, Nat.add_assoc, Nat.add_comm (last.time - t.started),
      Nat.sub_add_sub_cancel hlater hstarted]
  · rw [if_neg hrun] at helapsed ⊢
    rw [if_neg hrun, helapsed, Nat.add_zero]

@[simp] theorem lastReset_sampleReset (t : Timer) (reset : Bool) (now : Nanos) :
    (t.sampleReset reset now).lastReset = reset := by
  unfold sampleReset
  grind

@[simp] theorem lastRun_sampleReset (t : Timer) (reset : Bool) (now : Nanos) :
    (t.sampleReset reset now).lastRun = t.lastRun := by
  unfold sampleReset
  grind

@[simp] theorem lastReset_sampleRun (t : Timer) (run : Bool) (now : Nanos) :
    (t.sampleRun run now).lastReset = t.lastReset := by
  unfold sampleRun
  grind

@[simp] theorem lastRun_sampleRun (t : Timer) (run : Bool) (now : Nanos) :
    (t.sampleRun run now).lastRun = run := by
  unfold sampleRun
  grind

theorem elapsed_sampleReset (t : Timer) (reset : Bool) (now : Nanos) :
    (t.sampleReset reset now).elapsed now =
      if reset && !t.lastReset then 0 else t.elapsed now := by
  unfold sampleReset
  cases reset <;> cases hlast : t.lastReset <;> simp [Timer.elapsed]

/-- To start or to stop is to count nothing at that moment. -/
theorem elapsed_sampleRun (t : Timer) (run : Bool) (now : Nanos) :
    (t.sampleRun run now).elapsed now = t.elapsed now := by
  unfold sampleRun
  cases run <;> cases hlast : t.lastRun <;> simp [Timer.elapsed, hlast]

/-- A timer that runs was started or set back before. -/
theorem started_sample (t : Timer) (reset run : Bool) (now : Nanos)
    (h : t.lastRun = true → t.started ≤ now) (hrun : run = true) :
    (t.sample reset run now).started ≤ now := by
  subst hrun
  simp only [Timer.sample, sampleRun, lastRun_sampleReset]
  split
  · next hlast =>
    unfold sampleReset
    split
    · exact h hlast.symm
    · split
      · exact Nat.le_refl _
      · exact h hlast.symm
  · exact Nat.le_refl _

/-- **The timer goes on to show what is counted**: nothing after a rise of the reset pin, else
the interval since the last sample is added if the run pin was high. -/
theorem Shows.sample (h : t.Shows last count) (hlater : last.time ≤ s.time) :
    (t.sample s.reset s.run s.time).Shows s
      (if s.reset && !last.reset then 0
        else count + if last.run then s.time - last.time else 0) := by
  have helapsed : ((t.sampleReset s.reset s.time).sampleRun s.run s.time).elapsed s.time =
      if s.reset && !last.reset then 0
        else count + if last.run then s.time - last.time else 0 := by
    rw [elapsed_sampleRun, elapsed_sampleReset, h.lastReset, h.elapsed_later hlater]
  refine ⟨by simp [Timer.sample], by simp [Timer.sample], fun hrun => ?_, helapsed, ?_⟩
  · refine started_sample t s.reset s.run s.time (fun hlast => ?_) hrun
    exact Nat.le_trans (h.started (h.lastRun ▸ hlast)) hlater
  · exact congrArg Nanos.hoursMinutesSeconds helapsed

theorem sampleAll_take (t : Timer) (hn : n < samples.length) :
    t.sampleAll (samples.take (n + 1)) =
      (t.sampleAll (samples.take n)).sample samples[n].reset samples[n].run samples[n].time := by
  rw [← List.take_append_getElem hn, sampleAll, List.foldl_append]
  rfl

/-- The timer shows after each sample what is counted up to it. -/
theorem shows_sampleAll (base : String) (built : Nanos)
    (hsorted : samples.Pairwise fun a b => a.time ≤ b.time) (hn : n < samples.length) :
    ((new base built).sampleAll (samples.take (n + 1))).Shows samples[n] (counted samples n) := by
  induction n with
  | zero =>
    have hfirst := (shows_new base built).sample (Nat.zero_le samples[0].time)
    rw [sampleAll_take _ hn, counted, Finset.Ico_eq_empty_of_le (Nat.zero_le _)]
    simpa [sampleAll] using hfirst
  | succ n ih =>
    have hn' : n < samples.length := Nat.lt_of_succ_lt hn
    have hlater : samples[n].time ≤ samples[n + 1].time :=
      List.pairwise_iff_getElem.1 hsorted n (n + 1) _ hn (Nat.lt_succ_self n)
    have hcounted : counted samples (n + 1) =
        if samples[n + 1].reset && !samples[n].reset then 0
        else counted samples n +
          if samples[n].run then samples[n + 1].time - samples[n].time else 0 := by
      have hrise : risesAt samples (n + 1) = (samples[n + 1].reset && !samples[n].reset) := by
        simp [risesAt, resetAt, hn, hn']
      rw [← hrise]
      split
      · next h => exact counted_rise h
      · next h =>
        rw [counted_succ (by simpa using h)]
        simp [runsAt, timeAt, hn, hn']
    rw [sampleAll_take _ hn, hcounted]
    exact (ih hn').sample hlater

/-! ## The text -/

theorem extend_replicate_zero (k : Nat) : Numeral.extend 0 (List.replicate k '0') = some 0 := by
  induction k with
  | zero => rfl
  | succ k ih => exact ih

/-- A number is shown with at least two digits, and reads back. -/
theorem twoDigits_spec (k : Nat) : 2 ≤ (Nanos.twoDigits k).toList.length ∧
    Numeral.value? (Nanos.twoDigits k).toList = some k := by
  rw [Nanos.twoDigits, String.toList_ofList, Text.length_padLeft]
  refine ⟨Nat.le_max_left .., ?_⟩
  have hne : (Text.padLeft '0' 2 (Numeral.digits k)).isEmpty = false := by
    simp [Text.padLeft, Numeral.digits_ne_nil]
  rw [Numeral.value?, hne, Text.padLeft, Numeral.extend_append, extend_replicate_zero]
  exact Numeral.extend_digits k

/-- The text is that of a time in hours, minutes and whole seconds, each of at least two
digits. -/
structure Displays (text : String) (t : Nanos) (hours minutes seconds : Nat) : Prop where
  eq : text = Nanos.twoDigits hours ++ ":" ++ Nanos.twoDigits minutes ++ ":" ++
    Nanos.twoDigits seconds
  minutes_lt : minutes < 60
  seconds_lt : seconds < 60
  total : (hours * 60 + minutes) * 60 + seconds = t / 1000000000
  digits : ∀ k ∈ [hours, minutes, seconds], 2 ≤ (Nanos.twoDigits k).toList.length ∧
    Numeral.value? (Nanos.twoDigits k).toList = some k

theorem displays_hoursMinutesSeconds (t : Nanos) :
    ∃ hours minutes seconds, Displays (Nanos.hoursMinutesSeconds t) t hours minutes seconds := by
  refine ⟨_, _, _, rfl, ?_, ?_, ?_, fun k _ => twoDigits_spec k⟩
  all_goals omega

/-- **A timer shows the time that counts**, in hours, minutes and whole seconds, after updates
at times that do not go back. Updates that fail change nothing and take nothing in. -/
theorem text_updateAll (base : String) (built : Nanos) (updates : List (Nanos × PinView))
    (hsorted : ((new base built).samples updates).Pairwise fun a b => a.time ≤ b.time) :
    let samples := (new base built).samples updates
    let t := (new base built).updateAll updates
    (∀ n, samples.length = n + 1 → t.text = Nanos.hoursMinutesSeconds (counted samples n) ∧
      ∃ hours minutes seconds, Displays t.text (counted samples n) hours minutes seconds) ∧
    (∀ now view, ((t.update now view).error = none ↔ (t.sampled? now view).isSome) ∧
      ((t.update now view).error ≠ none → (t.update now view).element = t)) := by
  intro samples t
  refine ⟨fun n hlength => ?_, fun now view => ?_⟩
  · have hn : n < samples.length := hlength ▸ Nat.lt_succ_self n
    have hshows := shows_sampleAll base built hsorted hn
    rw [List.take_of_length_le (Nat.le_of_eq hlength), ← updateAll_eq] at hshows
    have htext : t.text = Nanos.hoursMinutesSeconds (counted samples n) := hshows.text
    exact ⟨htext, htext ▸ displays_hoursMinutesSeconds _⟩
  · have hupdate := t.update_eq now view
    cases hsampled : t.sampled? now view with
    | none =>
      rw [hsampled] at hupdate
      exact ⟨by simp [hupdate.2], fun _ => hupdate.1⟩
    | some s =>
      rw [hsampled] at hupdate
      exact ⟨by simp [hupdate.2.1], fun h => absurd hupdate.2.1 h⟩

/-- The pins of a timer `t` that runs. -/
def runningPins : PinView where
  store := ⟨[("t.reset", ⟨.input, .bit false⟩), ("t.run", ⟨.input, .bit true⟩)]⟩

/-- The timer runs from its first update on, and in between its pins cannot be read. -/
def interrupted : List (Nanos × PinView) :=
  [(5, runningPins), (1000, ⟨{}, []⟩), (3725000000005, runningPins)]

theorem text_updateAll_interrupted :
    let samples := (new "t" 0).samples interrupted
    (samples.Pairwise fun a b => a.time ≤ b.time) ∧ samples.length = 2 ∧
      counted samples 1 = 3725000000000 ∧
      ((new "t" 0).updateAll interrupted).text = "01:02:05" := by
  intro samples
  have hsamples : samples = [⟨5, false, true⟩, ⟨3725000000005, false, true⟩] := by rfl
  have hsorted : samples.Pairwise fun a b => a.time ≤ b.time := by
    rw [hsamples]
    simp
  have hcounted : counted samples 1 = 3725000000000 := by
    rw [hsamples]
    rfl
  have htext := ((text_updateAll "t" 0 interrupted hsorted).1 1 rfl).1
  refine ⟨hsorted, rfl, hcounted, htext.trans ?_⟩
  rw [show counted ((new "t" 0).samples interrupted) 1 = 3725000000000 from hcounted]
  decide +kernel

/-! ## The elapsed time -/

/-- The last sample; before there is one, the timer stands still. -/
def lastSample (samples : List Sample) : Sample :=
  samples.getLast?.getD ⟨0, false, false⟩

/-- What is counted up to the last sample. -/
def shown (samples : List Sample) : Nanos :=
  counted samples (samples.length - 1)

theorem lastSample_eq (hn : n < samples.length) (hlast : samples.length = n + 1) :
    lastSample samples = samples[n] := by
  have hget : samples.getLast? = some samples[n] := by
    rw [List.getLast?_eq_getElem?, hlast, Nat.add_sub_cancel, List.getElem?_eq_getElem hn]
  rw [lastSample, hget, Option.getD_some]

/-- Whatever has come, the timer shows what is counted up to the last sample. -/
theorem shows_updateAll (base : String) (built : Nanos) (updates : List (Nanos × PinView))
    (hsorted : ((new base built).samples updates).Pairwise fun a b => a.time ≤ b.time) :
    let samples := (new base built).samples updates
    ((new base built).updateAll updates).Shows (lastSample samples) (shown samples) := by
  intro samples
  rw [updateAll_eq]
  change (sampleAll _ samples).Shows _ _
  cases hlength : samples.length with
  | zero =>
    rw [List.eq_nil_of_length_eq_zero hlength]
    exact shows_new base built
  | succ n =>
    have hn : n < samples.length := by omega
    have hshows := shows_sampleAll base built hsorted hn
    rw [List.take_of_length_le (Nat.le_of_eq hlength)] at hshows
    rw [lastSample_eq hn hlength, shown, hlength, Nat.add_sub_cancel]
    exact hshows

/-- **The elapsed time is the time shown** at the moment of the last sample, and later if and only
if the run pin was low in it. If it was high, the elapsed time goes on to count, while the text
stays as it is until the next sample. -/
theorem elapsed_eq_shown_iff (base : String) (built : Nanos) (updates : List (Nanos × PinView))
    (later : Nanos)
    (hsorted : ((new base built).samples updates).Pairwise fun a b => a.time ≤ b.time)
    (hlater : (lastSample ((new base built).samples updates)).time ≤ later) :
    let samples := (new base built).samples updates
    let t := (new base built).updateAll updates
    let last := lastSample samples
    t.text = Nanos.hoursMinutesSeconds (shown samples) ∧
    t.elapsed last.time = shown samples ∧
    t.elapsed later = shown samples + (if last.run then later - last.time else 0) ∧
    (t.elapsed later = shown samples ↔ last.run = false ∨ later = last.time) := by
  intro samples t last
  have hshows : t.Shows last (shown samples) := shows_updateAll base built updates hsorted
  have helapsed := hshows.elapsed_later hlater
  refine ⟨hshows.text, hshows.elapsed, helapsed, ?_⟩
  rw [helapsed]
  cases hrun : last.run with
  | false => simp
  | true =>
    have hle : last.time ≤ later := hlater
    rw [if_pos rfl, Nat.add_eq_left, Nat.sub_eq_zero_iff_le]
    exact ⟨fun h => .inr (Nat.le_antisymm h hle), fun h => h.elim nofun Nat.le_of_eq⟩

theorem elapsed_eq_shown_iff_running :
    let samples := (new "t" 0).samples interrupted
    let t := (new "t" 0).updateAll interrupted
    (samples.Pairwise fun a b => a.time ≤ b.time) ∧
      (lastSample samples).time ≤ 3726500000005 ∧ t.text = "01:02:05" ∧
      t.elapsed 3725000000005 = 3725000000000 ∧ t.elapsed 3726500000005 = 3726500000000 := by
  intro samples t
  have hsamples : samples = [⟨5, false, true⟩, ⟨3725000000005, false, true⟩] := by rfl
  have hsorted : samples.Pairwise fun a b => a.time ≤ b.time := by
    rw [hsamples]
    simp
  have hshown : shown samples = 3725000000000 := by
    rw [hsamples]
    rfl
  have hlast : (lastSample samples).time ≤ 3726500000005 := by
    rw [hsamples]
    decide
  obtain ⟨htext, hnow, hlater, -⟩ := elapsed_eq_shown_iff "t" 0 interrupted _ hsorted hlast
  refine ⟨hsorted, hlast, htext.trans ?_, hnow.trans hshown, hlater.trans ?_⟩
  · rw [show shown ((new "t" 0).samples interrupted) = 3725000000000 from hshown]
    decide +kernel
  · rw [show shown ((new "t" 0).samples interrupted) = 3725000000000 from hshown]
    rfl

/-- It is not so that the elapsed time is always the time shown: the timer was started by its
last update, and a second has passed since. -/
theorem elapsed_ne_shown :
    ¬ ∀ (base : String) (built : Nanos) (updates : List (Nanos × PinView)) (later : Nanos),
      let samples := (new base built).samples updates
      (samples.Pairwise fun a b => a.time ≤ b.time) → (lastSample samples).time ≤ later →
        ((new base built).updateAll updates).elapsed later = shown samples := by
  intro h
  have hsorted : ((new "t" 0).samples [(5, runningPins)]).Pairwise fun a b => a.time ≤ b.time :=
    List.pairwise_singleton _ _
  have helapsed := h "t" 0 [(5, runningPins)] 1000000005 hsorted (by decide)
  have hshown : shown ((new "t" 0).samples [(5, runningPins)]) = 0 := by rfl
  rw [hshown] at helapsed
  cases helapsed

end MachinePanel.Timer
