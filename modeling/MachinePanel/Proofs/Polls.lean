/-
The polls of the status watcher, those that fail among them. Updates may overlap,
since a listener may make one while the events of another are still being
emitted. `run_polls` says what holds all the same: each poll that gives a
snapshot leads to the emission of what has changed since the one before, once
and in order; whoever is called finds the snapshot of that poll or of a later
one; and a run would be no different without the polls that fail.

The last two are about pairs of runs. One keeps a panel beside itself (`Timed`)
and finds that listeners may rely on what holds at every call; the other keeps
two panels together of which the second makes no failed polls (`Erased`).
-/
import MachinePanel.Proofs.Simulation
import MachinePanel.Proofs.Updates
import Mathlib.Data.List.Induction

namespace MachinePanel

variable {L μ : Type}

/-! ## Emissions and the polls they come from -/

/-- The poll of this number gave a snapshot. -/
def Answered (past : List (Happening L)) (k : Nat) : Prop :=
  ∃ s policy, past[k]? = some (.polled (.ok s) policy)

/-- Every emission of an update comes after the poll of that update, which gave a snapshot. -/
def Rooted (past : List (Happening L)) : Prop :=
  ∀ m k channel name notice, past[m]? = some (.emission (.update k) channel name notice) →
    k < m ∧ Answered past k

variable {l l' : List (Happening L)} {x y : Happening L} {k : Nat}

theorem Answered.lt_length (h : Answered l k) : k < l.length := by
  obtain ⟨s, policy, hk⟩ := h
  exact (List.getElem?_eq_some_iff.1 hk).1

theorem Answered.mono (h : Answered l k) (hpre : l <+: l') : Answered l' k := by
  have hlt := h.lt_length
  obtain ⟨s, policy, hk⟩ := h
  obtain ⟨added, rfl⟩ := hpre
  exact ⟨s, policy, by rw [List.getElem?_append_left hlt, hk]⟩

theorem Rooted.append_single (h : Rooted l)
    (hx : ∀ k channel name notice, x = .emission (.update k) channel name notice → Answered l k) :
    Rooted (l ++ [x]) := by
  intro m k channel name notice hm
  rcases Nat.lt_or_ge m l.length with hlt | hge
  · rw [List.getElem?_append_left hlt] at hm
    obtain ⟨hkm, hk⟩ := h m k channel name notice hm
    exact ⟨hkm, hk.mono (List.prefix_append l [x])⟩
  · have hlt := (List.getElem?_eq_some_iff.1 hm).1
    rw [List.length_append, List.length_singleton] at hlt
    obtain rfl : m = l.length := by omega
    rw [List.getElem?_concat_length, Option.some.injEq] at hm
    have hk := hx k channel name notice hm
    exact ⟨hk.lt_length, hk.mono (List.prefix_append l [x])⟩

theorem snapshotsGot_append_single (l : List (Happening L)) (x : Happening L) :
    snapshotsGot (l ++ [x]) = snapshotsGot l ++ x.got?.toList := by
  cases hx : x.got? <;> simp [snapshotsGot, hx]

/-- The snapshot got last was got by that poll or by a later one. -/
theorem Answered.latest (h : Answered l k) :
    ∃ j s policy, k ≤ j ∧ l[j]? = some (.polled (.ok s) policy) ∧
      (snapshotsGot l).getLast? = some s := by
  induction l using List.reverseRecOn with
  | nil => exact absurd h.lt_length (by simp)
  | append_singleton l x ih =>
    rw [snapshotsGot_append_single]
    cases hx : x.got? with
    | some s =>
      obtain ⟨policy, rfl⟩ : ∃ policy, x = .polled (.ok s) policy := by
        cases x with
        | polled answer policy => cases answer <;> cases hx; exact ⟨policy, rfl⟩
        | _ => cases hx
      have hlt := h.lt_length
      rw [List.length_append, List.length_singleton] at hlt
      exact ⟨l.length, s, policy, by omega, List.getElem?_concat_length, by simp⟩
    | none =>
      have hk : Answered l k := by
        obtain ⟨s, policy, hk⟩ := h
        rcases Nat.lt_or_ge k l.length with hlt | hge
        · exact ⟨s, policy, by rwa [List.getElem?_append_left hlt] at hk⟩
        · rw [List.getElem?_append_right hge, List.getElem?_singleton] at hk
          split at hk <;> cases hk
          cases hx
      obtain ⟨j, s, policy, hkj, hj, hlast⟩ := ih hk
      have hlt := (List.getElem?_eq_some_iff.1 hj).1
      refine ⟨j, s, policy, hkj, by rwa [List.getElem?_append_left hlt], ?_⟩
      rw [Option.toList_none, List.append_nil, hlast]

theorem after_eq_getLast? (l : List (Happening L)) :
    updateLedger.after none l = (snapshotsGot l).getLast? := by
  induction l using List.reverseRecOn with
  | nil => rfl
  | append_singleton l x ih =>
    rw [Ledger.after_append, ih, snapshotsGot_append_single, Ledger.after_cons, Ledger.after_nil]
    change x.observe _ = _
    cases x with
    | polled answer policy => cases answer <;> simp [Happening.observe, Happening.got?]
    | _ => simp [Happening.observe, Happening.got?]

/-- What an update has emitted, if nothing was emitted for it before its poll. -/
theorem emissionsFor_of_rooted (h : Rooted l) (k : Nat) :
    emissionsFor (.update k) l = emissionsFor (.update k) (l.drop (k + 1)) := by
  have hbefore : emissionsFor (.update k) (l.take (k + 1)) = [] := by
    refine List.filterMap_eq_nil_iff.2 fun x hx => ?_
    obtain ⟨m, hm⟩ := List.mem_iff_getElem?.1 hx
    have hlt := (List.getElem?_eq_some_iff.1 hm).1
    rw [List.length_take] at hlt
    rw [List.getElem?_take_of_lt (by omega)] at hm
    cases x with
    | emission c channel name notice =>
      have hne : c ≠ .update k := by
        rintro rfl
        have := (h m k channel name notice hm).1
        omega
      simp [Happening.emissionFor?, hne]
    | _ => rfl
  rw [← List.nil_append (emissionsFor _ (l.drop _)), ← hbefore, ← emissionsFor_append,
    List.take_append_drop]

namespace Panel

variable {p q : Panel L μ} {react react' : Reaction L μ}

/-! ## Calls find the snapshot they are about -/

/-- The snapshot kept was got by the latest update that has emitted anything, or later. -/
def Timely (p : Panel L μ) : Prop :=
  ∀ (m k : Nat) channel name notice,
    p.past[m]? = some (.emission (.update k) channel name notice) →
      ∃ (j : Nat) (s : Snapshot) (policy : HomingPolicy),
        k ≤ j ∧ p.past[j]? = some (.polled (.ok s) policy) ∧ p.status.cached = some s

/-- The same panel, which keeps the snapshot it got last, and on which nothing
was emitted for an update before its poll. -/
structure Timed (p q : Panel L μ) : Prop where
  eq : q = p
  current : p.status.cached = (snapshotsGot p.past).getLast?
  rooted : Rooted p.past

theorem Timed.timely (h : Timed p q) : Timely p := by
  intro m k channel name notice hm
  obtain ⟨j, s, policy, hkj, hj, hlast⟩ := (h.rooted m k channel name notice hm).2.latest
  exact ⟨j, s, policy, hkj, hj, h.current.trans hlast⟩

theorem timed_new (setup : Setup) (memory : μ) :
    Timed (Panel.new setup memory : Panel L μ) (Panel.new setup memory) where
  eq := rfl
  current := by
    rw [past_new]
    exact congrArg Core.cached (core_new (L := L) setup memory)
  rooted := by
    rw [past_new]
    intro m k channel name notice hm
    cases hm

theorem Timed.append_single (h : Timed p q) {r : Panel L μ} (hpast : r.past = p.past ++ [x])
    (hcached : r.status.cached = x.observe p.status.cached)
    (hx : ∀ k channel name notice, x = .emission (.update k) channel name notice →
      Answered p.past k) : Timed r r where
  eq := rfl
  current := by
    have hafter := after_eq_getLast? (p.past ++ [x])
    rw [Ledger.after_append, after_eq_getLast?, ← h.current] at hafter
    rw [hpast, hcached]
    exact hafter
  rooted := by
    rw [hpast]
    exact h.rooted.append_single hx

theorem simulation_timed : Simulation Eq (Timed (L := L) (μ := μ)) where
  bare h := congrArg Panel.bare h.eq
  number h := by rw [h.eq]
  record := by
    intro p q x y h hxy
    obtain rfl := h.eq
    obtain ⟨rfl, hobserve, hroot⟩ : y = x ∧ x.observe q.status.cached = q.status.cached ∧
        ∀ k channel name notice, x ≠ .emission (.update k) channel name notice := by
      cases hxy with
      | emission hc => cases hc <;> subst_eqs <;> exact ⟨rfl, rfl, by simp⟩
      | _ => subst_eqs; exact ⟨rfl, rfl, by simp⟩
    exact h.append_single (past_record q y) hobserve.symm
      fun k channel name notice hy => absurd hy (hroot k channel name notice)
  still := by
    intro p q f _ hf h
    obtain rfl := h.eq
    obtain ⟨hpast, hcached⟩ := hf q
    exact ⟨rfl, by rw [hpast, hcached, h.current], by rw [hpast]; exact h.rooted⟩

theorem Timed.emitAll (hgrows : ∀ l n p, Grows [] p (react l n p).2)
    (hreact : Follows Timed react react') (hk : Answered p.past k)
    (notices : List (String × Notice)) (h : Timed p q) :
    Timed (p.emitAll react (.update k) .status notices)
      (q.emitAll react' (.update k) .status notices) := by
  induction notices generalizing p q with
  | nil => exact h
  | cons n rest ih =>
    have hbegin : Timed (p.record (.emission (.update k) .status n.1 n.2))
        (q.record (.emission (.update k) .status n.1 n.2)) := by
      rw [h.eq]
      refine h.append_single (past_record p _) rfl fun k' _ _ _ hx => ?_
      cases hx
      exact hk
    have hemit := (simulation_timed.emit hreact h hbegin).2
    -- Listeners may have polled meanwhile, but the poll of this update still stands where it did.
    have hcontinues := (grows_emit hgrows p (.update k) .status n.1 n.2).continues
    exact ih (hk.mono hcontinues) hemit

theorem Timed.updateStatus (hgrows : ∀ l n p, Grows [] p (react l n p).2)
    (hreact : Follows Timed react react') (h : Timed p q) :
    Timed (p.updateStatus react) (q.updateStatus react') := by
  obtain rfl := h.eq
  have hpast := past_pollSource q
  rw [updateStatus_eq, updateStatus_eq]
  cases hpoll : q.pollSource.1 with
  | error e =>
    rw [hpoll] at hpast
    exact simulation_timed.note _ (h.append_single hpast rfl (by simp))
  | ok s =>
    rw [hpoll] at hpast
    have hcache : Timed (q.pollSource.2.cache s) (q.pollSource.2.cache s) :=
      h.append_single (by rw [past_cache, hpast]) rfl (by simp)
    refine hcache.emitAll hgrows hreact ⟨s, q.status.policy, ?_⟩ _
    rw [past_cache, hpast, List.getElem?_concat_length]

/-- **Listeners may rely on what they find**: if they do something else on panels
that are not timely, the run is the same. -/
theorem run_timed {conduct conduct' : Conduct L μ}
    (hconduct : ∀ l n r, Timely r → conduct' l n r = conduct l n r) (depth : Nat)
    (steps : List (Step L μ)) (h : Timed p q) :
    Timed (p.run (conduct.react depth) steps) (q.run (conduct'.react depth) steps) := by
  have hgrows := grows_permanent.reaction conduct
  have hplans : ∀ l n p q, Timed p q → (conduct l n p).Agrees Timed (conduct' l n q) := by
    intro l n p q h
    rw [h.eq, hconduct l n p h.timely]
    exact .refl (fun _ _ h => h.eq) _
  have hreact : ∀ depth, Follows Timed (conduct.react depth) (conduct'.reactBy ownUpdate depth) :=
    simulation_timed.reaction hplans
      fun depth hreact p q h => h.updateStatus (hgrows depth) hreact
  have hrun := simulation_timed.run (hreact depth)
    (fun p q h => h.updateStatus (hgrows depth) (hreact depth)) steps h
  rwa [runBy_own, reactBy_own] at hrun

/-! ## Runs without failed polls -/

end Panel

/-- The cause without its number. -/
def Cause.unnumbered : Cause → Cause
  | update _ => .update 0
  | pass _ => .pass 0
  | c => c

/-- The happening without the number of what it belongs to, unless it is a failed poll. -/
def Happening.told? : Happening L → Option (Happening L)
  | polled (.error _) _ => none
  | passEnd _ changed => some (.passEnd 0 changed)
  | emission c channel name notice => some (.emission c.unnumbered channel name notice)
  | call _ s notice => some (.call 0 s notice)
  | callEnd _ s completion => some (.callEnd 0 s completion)
  | emissionEnd _ delivered => some (.emissionEnd 0 delivered)
  | x => some x

/-- What happened, but for failed polls. As these have numbers too, happenings are told without. -/
def told (past : List (Happening L)) : List (Happening L) :=
  past.filterMap Happening.told?

theorem told_append_single (l : List (Happening L)) (x : Happening L) :
    told (l ++ [x]) = told l ++ x.told?.toList := by
  cases hx : x.told? <;> simp [told, hx]

theorem Happening.told?_same {N : Nat → Nat → Prop} (h : x.Same N y) :
    y.told? = x.told? ∧ y.told? ≠ none := by
  cases h with
  | emission hc => cases hc <;> exact ⟨rfl, by simp [told?]⟩
  | _ => exact ⟨rfl, by simp [told?]⟩

/-- Events are emitted in a run as they are told of it. -/
theorem statusEvents_told (l : List (Happening L)) : statusEvents (told l) = statusEvents l := by
  unfold statusEvents told
  rw [List.filterMap_filterMap]
  congr 1
  funext x
  cases x with
  | polled answer policy => cases answer <;> rfl
  | emission c => cases c <;> rfl
  | _ => rfl

namespace Panel

variable {p q : Panel L μ} {react react' : Reaction L μ}

/-- The source gives its next answer. -/
def draw (p : Panel L μ) : Panel L μ :=
  { p with status := { p.status with source := (p.status.source.poll p.cell).2 } }

/-- An update, unless the poll would fail; then the answer goes by unasked. -/
def updateAnswered (react : Reaction L μ) (p : Panel L μ) : Panel L μ :=
  match p.pollSource.1 with
  | .ok _ => p.updateStatus react
  | .error _ => p.draw

/-- Panels with the same said of them, of which the second has made no failed polls. -/
structure Erased (p q : Panel L μ) : Prop where
  bare : q.bare = p.bare
  told : told q.past = told p.past
  answered : ∀ x ∈ q.past, x.told? ≠ none

theorem erased_refl (hpast : p.past = []) : Erased p p :=
  ⟨rfl, rfl, by simp [hpast]⟩

theorem Erased.record (h : Erased p q) (hxy : y.told? = x.told?) (hy : y.told? ≠ none) :
    Erased (p.record x) (q.record y) where
  bare := h.bare
  told := by rw [past_record, past_record, told_append_single, told_append_single, h.told, hxy]
  answered := by
    intro z hz
    rw [past_record, List.mem_append, List.mem_singleton] at hz
    rcases hz with hz | rfl
    · exact h.answered z hz
    · exact hy

theorem Erased.still {f : Panel L μ → Panel L μ} (hunread : Unread f)
    (hpast : ∀ r, (f r).past = r.past) (h : Erased p q) : Erased (f p) (f q) where
  bare := hunread.bare_eq h.bare
  told := by rw [hpast, hpast, h.told]
  answered := by
    rw [hpast]
    exact h.answered

theorem simulation_erased : Simulation (fun _ _ => True) (Erased (L := L) (μ := μ)) where
  bare h := h.bare
  number _ := trivial
  record h hxy := h.record (Happening.told?_same hxy).1 (Happening.told?_same hxy).2
  still hunread hf h := h.still hunread fun r => (hf r).1

theorem pollSource_snd (p : Panel L μ) :
    p.pollSource.2 = p.draw.record (.polled p.pollSource.1 p.status.policy) := rfl

theorem Erased.updateStatus (hreact : Follows Erased react react') (h : Erased p q) :
    Erased (p.updateStatus react) (q.updateAnswered react') := by
  have hanswer : q.pollSource.1 = p.pollSource.1 :=
    simulation_erased.same (·.pollSource.1) (fun _ _ _ => rfl) h
  have hstatus : q.status = p.status := simulation_erased.status_eq h
  have hdraw : Erased p.draw q.draw := h.still (f := draw) (fun _ => rfl) (fun _ => rfl)
  unfold updateAnswered
  rw [updateStatus_eq, updateStatus_eq, pollSource_snd, pollSource_snd, hanswer, hstatus]
  cases p.pollSource.1 with
  | error e =>
    -- The failed poll is all that one history has and the other has not, and it is not told of.
    refine ⟨hdraw.bare, ?_, hdraw.answered⟩
    rw [past_note, past_record, told_append_single, hdraw.told]
    exact (List.append_nil _).symm
  | ok s =>
    have hpolled := hdraw.record (x := .polled (.ok s) p.status.policy)
      (y := .polled (.ok s) p.status.policy) rfl (by simp [Happening.told?])
    have hcache := hpolled.still (f := fun r => r.cache s) (fun _ => rfl) (fun r => past_cache r s)
    simp only [acceptSnapshot, simulation_erased.status_eq hpolled]
    refine simulation_erased.emitAll hreact (fun n _ r r' hr => ?_) hcache
    exact hr.record rfl (by simp [Happening.told?])

/-- A conduct that does not go by the books, which are kept about a panel and not on it. -/
def Blind (conduct : Conduct L μ) : Prop :=
  ∀ l n p q, q.bare = p.bare →
    (conduct l n p).Agrees (fun p q => q.bare = p.bare) (conduct l n q)

theorem run_erased {conduct : Conduct L μ} (hblind : Blind conduct) (depth : Nat)
    (steps : List (Step L μ)) (h : Erased p q) :
    Erased (p.run (conduct.react depth) steps)
      (q.runBy updateAnswered (conduct.reactBy updateAnswered depth) steps) := by
  have hreact : ∀ depth,
      Follows Erased (conduct.react depth) (conduct.reactBy updateAnswered depth) :=
    simulation_erased.reaction
      (fun l n p q h => (hblind l n p q h.bare).mono fun _ _ h => h.bare)
      fun _ hreact _ _ h => h.updateStatus hreact
  exact simulation_erased.run (hreact depth) (fun _ _ h => h.updateStatus (hreact depth)) steps h

/-! ## All polls of a run -/

/-- What the update of a poll that gave a snapshot emits, in a whole history. -/
theorem emissionsFor_of_settled {past : List (Happening L)} (hrooted : Rooted past)
    (hsettled : updateLedger.Settled 0 none past) {k : Nat} {s : Snapshot} {policy : HomingPolicy}
    (hk : past[k]? = some (.polled (.ok s) policy)) :
    emissionsFor (.update k) past =
      (statusNotices (changes (snapshotsGot (past.take k)).getLast? s policy)).map
        (.status, ·) := by
  have hrequires := hsettled k _ hk
  rw [Nat.zero_add, after_eq_getLast?] at hrequires
  rw [emissionsFor_of_rooted hrooted]
  exact hrequires

theorem callTimekeeper_of_failed {e : SourceError} (h : p.pollSource.1 = .error e) :
    (p.callTimekeeper react .status).1 = true ∧
      (p.callTimekeeper react .status).2.past = p.past ++ [.polled (.error e) p.status.policy] ∧
      (p.callTimekeeper react .status).2.status.cached = p.status.cached := by
  refine ⟨rfl, ?_, ?_⟩
  · rw [callTimekeeper, updateStatus_eq, h, past_note, past_pollSource, h]
  · rw [callTimekeeper, updateStatus_eq, h]
    rfl

/-- **No change is lost or told twice, and failed polls do not show.** In every
run from a new panel, whatever listeners do: each poll that gives a snapshot
leads to the emission of what has changed since the last one, once and in
order, and nothing else is emitted for an update; whoever is called finds a
snapshot got by the latest of the updates that have emitted, or later. A failed
poll adds nothing but itself to the history, and a run that leaves them all out
tells the same, provided that listeners do not go by the books. -/
theorem run_polls (conduct : Conduct L μ) (depth : Nat) (setup : Setup) (memory : μ)
    (steps : List (Step L μ)) :
    let start : Panel L μ := Panel.new setup memory
    let p := start.run (conduct.react depth) steps
    (∀ (k : Nat) s policy, p.past[k]? = some (.polled (.ok s) policy) →
      emissionsFor (.update k) p.past =
        (statusNotices (changes (snapshotsGot (p.past.take k)).getLast? s policy)).map
          (.status, ·)) ∧
    Rooted p.past ∧
    p.status.cached = (snapshotsGot p.past).getLast? ∧
    (∀ conduct' : Conduct L μ, (∀ l n r, Timely r → conduct' l n r = conduct l n r) →
      start.run (conduct'.react depth) steps = p) ∧
    (∀ (react : Reaction L μ) (r : Panel L μ) e, r.pollSource.1 = .error e →
      (r.callTimekeeper react .status).1 = true ∧
        (r.callTimekeeper react .status).2.past = r.past ++ [.polled (.error e) r.status.policy] ∧
        (r.callTimekeeper react .status).2.status.cached = r.status.cached) ∧
    (Blind conduct →
      let q := start.runBy updateAnswered (conduct.reactBy updateAnswered depth) steps
      told q.past = told p.past ∧ statusEvents q.past = statusEvents p.past ∧
        q.status.cached = p.status.cached ∧ ∀ x ∈ q.past, x.told? ≠ none) := by
  intro start p
  have htimed : Timed start start := timed_new setup memory
  -- A conduct agrees with itself, so that the run may stand beside itself.
  have hp : Timed p p := run_timed (fun _ _ _ _ => rfl) depth steps htimed
  have hcached : updates.view start = none := congrArg Core.cached (core_new (L := L) setup memory)
  have hsettled := (Account.run_settled updates_permanent conduct depth setup memory steps).1
  rw [hcached] at hsettled
  refine ⟨fun k s policy hk => emissionsFor_of_settled hp.rooted hsettled hk, hp.rooted,
    hp.current, fun conduct' hconduct => (run_timed hconduct depth steps htimed).eq,
    fun react r e he => callTimekeeper_of_failed he, fun hblind => ?_⟩
  have herased := run_erased hblind depth steps (erased_refl (past_new (L := L) setup memory))
  refine ⟨herased.told, ?_, congrArg StatusWatcher.cached (simulation_erased.status_eq herased),
    herased.answered⟩
  rw [← statusEvents_told, herased.told, statusEvents_told]

/-- A listener that makes an update whenever it is called. -/
def refreshing : Conduct Unit Unit := fun _ _ _ =>
  .perform .updateStatus fun _ => .finish .returned

theorem refreshing_blind : Blind refreshing :=
  fun _ _ _ _ _ => .perform _ fun _ _ _ => .finish _

/-- The happening is an emission of an update. -/
def isUpdateEmission : Happening Unit → Bool
  | .emission (.update _) .. => true
  | _ => false

/-- One that panics when it hears of a snapshot that it does not find. -/
def suspicious : Conduct Unit Unit := fun l n p =>
  if p.past.any isUpdateEmission && p.status.cached.isNone then .finish (.panicked none)
  else refreshing l n p

theorem suspicious_of_timely {l : Unit} {n : Notice} {p : Panel Unit Unit} (h : Timely p) :
    suspicious l n p = refreshing l n p := by
  unfold suspicious
  split
  · next hstale =>
    obtain ⟨hany, hnone⟩ := (Bool.and_eq_true _ _).mp hstale
    obtain ⟨x, hx, hemission⟩ := List.any_eq_true.1 hany
    obtain ⟨m, hm⟩ := List.mem_iff_getElem?.1 hx
    cases x with
    | emission c channel name notice =>
      cases c with
      | update k =>
        obtain ⟨_, _, _, _, _, hcached⟩ := h m k channel name notice hm
        rw [hcached] at hnone
        cases hnone
      | _ => cases hemission
    | _ => cases hemission
  · rfl

/-- An update, heard by a listener. -/
def heardUpdate : List (Step Unit Unit) :=
  [.operation (.subscribe .status .any ()), .operation .updateStatus]

/-- A run in which the second snapshot of the script is got while the events of
the first are still being emitted. -/
def overlappingRun : Panel Unit Unit :=
  (Panel.new { script := some briefScript } ()).run (refreshing.react 1) heardUpdate

theorem run_polls_overlapping :
    let start : Panel Unit Unit := Panel.new { script := some briefScript } ()
    let q := start.runBy updateAnswered (refreshing.reactBy updateAnswered 1) heardUpdate
    emissionsFor (.update 9) overlappingRun.past =
        (statusNotices (changes (briefScript[0].toOption) { runState := .estop, homed := [false] }
          .countMatch)).map (.status, ·) ∧
      start.run (suspicious.react 1) heardUpdate = overlappingRun ∧ Blind refreshing ∧
      statusEvents q.past = statusEvents overlappingRun.past ∧
      q.status.cached = some { runState := .estop, homed := [false] } := by
  have h := run_polls refreshing 1 { script := some briefScript } () heardUpdate
  obtain ⟨hemitted, -, -, hsame, -, herased⟩ := h
  obtain ⟨-, hevents, hcached, -⟩ := herased refreshing_blind
  have hnine : overlappingRun.past[9]? =
      some (.polled (.ok { runState := .estop, homed := [false] }) .countMatch) := by rfl
  have hbefore : (snapshotsGot (overlappingRun.past.take 9)).getLast? =
      briefScript[0].toOption := by rfl
  have hlast : overlappingRun.status.cached =
      some { runState := .estop, homed := [false] } := by rfl
  have hdiff := hemitted 9 _ .countMatch hnine
  refine ⟨?_, hsame suspicious fun _ _ _ => suspicious_of_timely, refreshing_blind, hevents,
    hcached.trans hlast⟩
  rw [← hbefore]
  exact hdiff

end Panel

end MachinePanel
