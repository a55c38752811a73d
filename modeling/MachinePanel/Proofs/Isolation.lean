/-
Isolation of the entries on the watch list. A second panel is like the first, but
some entries are taken off its list beforehand. As long as listeners only look on,
it makes the same passes over the entries that are spared and emits what is told of
them (`Echoes`). Once all others have failed, nothing tells the two apart any more:
from that pass on they emit the same, and their lists are the same with the
values that are remembered (`run_isolated`).

Both runs are gone through step by step. On the way the two panels differ in the
entries that are not spared, in the books and in what listeners remember (`Twin`).
-/
import MachinePanel.Proofs.Departures
import MachinePanel.Proofs.Onlookers
import MachinePanel.Proofs.Tandem

namespace MachinePanel

variable {spared : Nat → Bool}

theorem filterMap_absorb_filter (spared : Nat → Bool) (read : Handle → Except PinError Value)
    (list : List Watch) :
    (list.filter fun w => spared w.serial).filterMap (fun w => w.absorb (read w.pin)) =
      (list.filterMap fun w => w.absorb (read w.pin)).filter fun w => spared w.serial :=
  filterMap_absorb_filter_entry (fun e => spared e.1) read list

/-- What a pass keeps is spared if it could read no other entry. -/
theorem spared_of_kept {read : Handle → Except PinError Value} {list : List Watch}
    (hall : (list.map (Watch.reading read)).all (fun r => spared r.serial || r.isFailed) = true) :
    ∀ w ∈ list.filterMap fun w => w.absorb (read w.pin), spared w.serial = true := by
  intro w' hw'
  obtain ⟨w, hw, habsorb⟩ := List.mem_filterMap.1 hw'
  have hr := List.all_eq_true.1 hall (w.reading read) (List.mem_map_of_mem hw)
  rcases Bool.or_eq_true_iff.1 hr with hspared | hfailed
  · rw [Watch.serial_absorb habsorb]
    exact hspared
  · rw [Watch.absorb_of_failed hfailed] at habsorb
    cases habsorb

/-- An entry that tells is kept. -/
theorem Watch.exists_absorb {w : Watch} {result : Except PinError Value}
    (h : w.isTold result = true) : ∃ w', w.absorb result = some w' ∧ w'.serial = w.serial := by
  cases result with
  | error e => cases h
  | ok value =>
    obtain ⟨w', hw'⟩ : ∃ w', w.absorb (.ok value) = some w' := ⟨_, rfl⟩
    exact ⟨w', hw', Watch.serial_absorb hw'⟩

/-! ## What the two panels tell -/

/-- The bulletins of a panel, and those of one on which only some entries are spared. The
flags say that no others are left, before and after; until then some of what the
first panel tells may be missing on the second. -/
inductive Echoes (spared : Nat → Bool) : Bool → List Bulletin → List Bulletin → Bool → Prop where
  | nil (healed : Bool) : Echoes spared healed [] [] healed
  | told {healed after : Bool} {b b' : List Bulletin} (t : Tiding)
    (h : Echoes spared healed b b' after) :
    Echoes spared healed (.told t :: b) (.told t :: b') after
  | muted {after : Bool} {b b' : List Bulletin} (t : Tiding) (h : Echoes spared false b b' after) :
    Echoes spared false (.told t :: b) b' after
  | read {healed after : Bool} {b b' : List Bulletin} (readings : List Reading)
    (hhealed : healed = true → ∀ r ∈ readings, spared r.serial = true)
    (h : Echoes spared (readings.all fun r => spared r.serial || r.isFailed) b b' after) :
    Echoes spared healed (.read readings :: b)
      (.read (readings.filter fun r => spared r.serial) :: b') after

namespace Echoes

variable {b b' c c' : List Bulletin} {healed after last : Bool}

theorem append (h : Echoes spared healed b b' after) (h' : Echoes spared after c c' last) :
    Echoes spared healed (b ++ c) (b' ++ c') last := by
  induction h with
  | nil healed => exact h'
  | told t _ ih => exact .told t (ih h')
  | muted t _ ih => exact .muted t (ih h')
  | read readings hhealed _ ih => exact .read readings hhealed (ih h')

/-- When no others are left, both tell the same. -/
theorem eq_of_healed (h : Echoes spared healed b b' after) (hhealed : healed = true) :
    b' = b ∧ after = true := by
  induction h with
  | nil => exact ⟨rfl, hhealed⟩
  | told t _ ih =>
    obtain ⟨rfl, hafter⟩ := ih hhealed
    exact ⟨rfl, hafter⟩
  | muted => cases hhealed
  | read readings hspared _ ih =>
    have hspared := hspared hhealed
    obtain ⟨rfl, hafter⟩ := ih (List.all_eq_true.2 fun r hr => by rw [hspared r hr]; rfl)
    exact ⟨by rw [List.filter_eq_self.2 hspared], hafter⟩

/-- **After a pass that leaves no others, both tell the same.** Until then the second panel
has made the same passes, over its own entries. -/
theorem split {earlier later : List Bulletin} {readings : List Reading}
    (h : Echoes spared healed (earlier ++ .read readings :: later) b' after)
    (hfailed : ∀ r ∈ readings, spared r.serial = false → r.isFailed = true) :
    after = true ∧ ∃ earlier',
      b' = earlier' ++ .read (readings.filter fun r => spared r.serial) :: later ∧
      earlier'.filterMap Bulletin.readings? =
        (earlier.filterMap Bulletin.readings?).map (List.filter fun r => spared r.serial) := by
  induction earlier generalizing healed b' with
  | nil =>
    have hall : (readings.all fun r => spared r.serial || r.isFailed) = true := by
      refine List.all_eq_true.2 fun r hr => ?_
      cases hr' : spared r.serial with
      | true => rfl
      | false => exact hfailed r hr hr'
    cases h with
    | read _ _ h =>
      obtain ⟨rfl, hafter⟩ := h.eq_of_healed hall
      exact ⟨hafter, [], rfl, rfl⟩
  | cons x earlier ih =>
    cases h with
    | told t h =>
      obtain ⟨hafter, earlier', rfl, hpasses⟩ := ih h
      exact ⟨hafter, .told t :: earlier', rfl, hpasses⟩
    | muted t h => exact ih h
    | read readings' _ h =>
      obtain ⟨hafter, earlier', rfl, hpasses⟩ := ih h
      exact ⟨hafter, .read _ :: earlier', rfl, congrArg (_ :: ·) hpasses⟩

/-- Both tell the same. -/
theorem tell (spared : Nat → Bool) (healed : Bool) (tidings : List Tiding) :
    Echoes spared healed (tidings.map .told) (tidings.map .told) healed := by
  induction tidings with
  | nil => exact .nil healed
  | cons t rest ih => exact .told t ih

/-- Each tells of its own entries. -/
theorem news (isTold : Watch → Bool) (tiding : Watch → Tiding) {list : List Watch}
    (hhealed : healed = true → ∀ w ∈ list, isTold w = true → spared w.serial = true) :
    Echoes spared healed (((list.filter isTold).map tiding).map .told)
      ((((list.filter fun w => spared w.serial).filter isTold).map tiding).map .told)
      healed := by
  induction list with
  | nil => exact .nil healed
  | cons w rest ih =>
    have hrest := ih fun hhealed' w' hw' => hhealed hhealed' w' (List.mem_cons_of_mem w hw')
    cases htold : isTold w with
    | false => cases hspared : spared w.serial <;> simpa [htold, hspared] using hrest
    | true =>
      cases hspared : spared w.serial with
      | true => simpa [htold, hspared] using hrest.told (tiding w)
      | false =>
        -- Another entry is told of only while it is there.
        have hfalse : healed = false := by
          cases healed with
          | false => rfl
          | true =>
            have hw := hhealed rfl w (List.mem_cons_self ..) htold
            rw [hspared] at hw
            cases hw
        subst hfalse
        simpa [htold, hspared] using hrest.muted (tiding w)

end Echoes

namespace Panel

variable {L μ : Type} {p p' q q' : Panel L μ} {react : Reaction L μ}
  {heard : List Bulletin}

/-- The second panel is as the first but for the entries that are not spared, the books
and what listeners remember. What both have told agrees, beyond what was heard before. -/
structure Twin (spared : Nat → Bool) (heard : List Bulletin) (p q : Panel L μ) : Prop where
  bare : q.bare = p.guise (List.filter fun w => spared w.serial) fun _ => q.memory
  fresh : ∀ n, p.pins.registrations ≤ n → spared n = true
  echo : ∃ b b' healed, p.bulletins = heard ++ b ∧ q.bulletins = heard ++ b' ∧
    Echoes spared false b b' healed ∧ (healed = true → ∀ w ∈ p.pins.list, spared w.serial = true)

/-- Nothing is told from `p` to `q`, and the watch list stays as it is. -/
structure Mute (p q : Panel L μ) : Prop where
  bulletins : q.bulletins = p.bulletins
  list : q.pins.list = p.pins.list
  registrations : q.pins.registrations = p.pins.registrations

theorem Quiet.mute (h : Quiet p q) : Mute p q :=
  ⟨h.bulletins, h.list, h.registrations⟩

theorem mute_of_past {added : List (Happening L)} (hpast : q.past = p.past ++ added)
    (hadded : added.filterMap Happening.bulletin? = []) (hlist : q.pins.list = p.pins.list)
    (hregistrations : q.pins.registrations = p.pins.registrations) : Mute p q :=
  ⟨by rw [bulletins_of_past hpast, hadded, List.append_nil], hlist, hregistrations⟩

theorem mute_subscribe (p : Panel L μ) (channel : Channel) (filter : Filter) (listener : L) :
    Mute p (p.subscribe channel filter listener).2 := by
  refine mute_of_past (past_subscribe p channel filter listener) rfl ?_ ?_ <;> cases channel <;> rfl

theorem mute_unsubscribe (p : Panel L μ) (channel : Channel) (id : Nat) :
    Mute p (p.unsubscribe channel id).2 := by
  refine mute_of_past (past_unsubscribe p channel id) rfl ?_ ?_ <;>
    simp only [unsubscribe] <;> cases channel <;> split <;> rfl

theorem mute_clear (p : Panel L μ) (channel : Channel) : Mute p (p.clear channel) := by
  refine mute_of_past (past_clear p channel) rfl ?_ ?_ <;> cases channel <;> rfl

/-- The panel with empty books and another memory, with its watch list changed. -/
def rewatched (p : Panel L μ) (list : List Watch) (registrations : Nat) (memory : μ) :
    Panel L μ :=
  { p.bare with pins := { p.pins with list, registrations }, memory }

namespace Twin

section

variable (h : Twin spared heard p q)
include h

/-- What goes by nothing in which they differ is the same on both. -/
theorem same {α : Type} (f : Panel L μ → α)
    (hf : ∀ list memory (r : Panel L μ), f (r.guise list memory) = f r) : f q = f p := by
  rw [← hf id id q]
  change f q.bare = _
  rw [h.bare, hf]

theorem list_eq : q.pins.list = p.pins.list.filter fun w => spared w.serial :=
  congrArg (·.pins.list) h.bare

theorem mute {f : Panel L μ → Panel L μ} (hunseen : Unseen f) (hmute : ∀ r, Mute r (f r)) :
    Twin spared heard (f p) (f q) := by
  have hbare := hunseen.guise_eq h.bare
  have hmemory : (f q).memory = q.memory := congrArg (·.memory) hbare
  refine ⟨by rw [hmemory]; exact hbare, by rw [(hmute p).registrations]; exact h.fresh, ?_⟩
  rw [(hmute p).bulletins, (hmute p).list, (hmute q).bulletins]
  exact h.echo

theorem quiet {f : Panel L μ → Panel L μ} (hunseen : Unseen f) (hquiet : ∀ r, Quiet r (f r)) :
    Twin spared heard (f p) (f q) :=
  h.mute hunseen fun r => (hquiet r).mute

/-- Both lists change in the same way. -/
theorem change {list : List Watch} {registrations : Nat} {c c' : List Bulletin}
    (hp : p'.bare = p.rewatched list registrations p'.memory)
    (hq : q'.bare =
      q.rewatched (list.filter fun w => spared w.serial) registrations q'.memory)
    (hregistrations : p.pins.registrations ≤ registrations)
    (hpc : p'.bulletins = p.bulletins ++ c) (hqc : q'.bulletins = q.bulletins ++ c')
    (hc : ∀ {healed}, (healed = true → ∀ w ∈ p.pins.list, spared w.serial = true) →
      ∃ after, Echoes spared healed c c' after ∧
        (after = true → ∀ w ∈ list, spared w.serial = true)) :
    Twin spared heard p' q' := by
  have hpins : p'.pins = { p.pins with list, registrations } := congrArg (·.pins) hp
  refine ⟨?_, ?_, ?_⟩
  · have hsame : ∀ r : Panel L μ, ∀ list, r.rewatched list registrations q'.memory =
        r.bare.rewatched list registrations q'.memory := fun _ _ => rfl
    have hp' : p'.guise (List.filter fun w => spared w.serial) (fun _ => q'.memory) =
        p'.bare.guise (List.filter fun w => spared w.serial) fun _ => q'.memory := rfl
    rw [hq, hsame, h.bare, hp', hp]
    rfl
  · rw [hpins]
    exact fun n hn => h.fresh n (Nat.le_trans hregistrations hn)
  · obtain ⟨b, b', healed, hb, hb', hechoes, hhealed⟩ := h.echo
    obtain ⟨after, hlater, hafter⟩ := hc hhealed
    refine ⟨_, _, after, ?_, ?_, hechoes.append hlater, by rw [hpins]; exact hafter⟩
    · rw [hpc, hb, List.append_assoc]
    · rw [hqc, hb', List.append_assoc]

theorem registrations_eq : q.pins.registrations = p.pins.registrations :=
  congrArg (·.pins.registrations) h.bare

/-- Each panel emits what is told of its own entries. -/
theorem utters {tidings tidings' : List Tiding} (hp : Utters tidings p p')
    (hq : Utters tidings' q q')
    (htold : ∀ {healed}, (healed = true → ∀ w ∈ p.pins.list, spared w.serial = true) →
      Echoes spared healed (tidings.map .told) (tidings'.map .told) healed) :
    Twin spared heard p' q' := by
  have hp' : p'.bare = p.rewatched p.pins.list p.pins.registrations p'.memory := hp.bare
  refine h.change hp' ?_ (Nat.le_refl _) hp.bulletins hq.bulletins fun hhealed =>
    ⟨_, htold hhealed, hhealed⟩
  rw [← h.list_eq, ← h.registrations_eq]
  exact hq.bare

/-- The same is emitted on both. -/
theorem utter {tidings : List Tiding} (hp : Utters tidings p p') (hq : Utters tidings q q') :
    Twin spared heard p' q' :=
  h.utters hp hq fun _ => .tell spared _ tidings

/-! ### Changes of the list -/

theorem register (pin : Handle) :
    Twin spared heard (p.register pin) (q.register pin) := by
  let new : Watch := ⟨p.pins.registrations, pin, none⟩
  have hnew : spared new.serial = true := h.fresh _ (Nat.le_refl _)
  have hbare : ∀ r : Panel L μ, (r.register pin).bare =
      r.rewatched (r.pins.list ++ [⟨r.pins.registrations, pin, none⟩])
        (r.pins.registrations + 1) r.memory := fun _ => rfl
  have hmute : ∀ r : Panel L μ, (r.register pin).bulletins = r.bulletins ++ [] :=
    fun r => bulletins_of_past (past_register r pin)
  refine h.change (hbare p) ?_ (Nat.le_succ _) (hmute p) (hmute q) fun hhealed =>
    ⟨_, .nil _, fun htrue w hw => ?_⟩
  · rw [hbare q, h.list_eq, h.registrations_eq, List.filter_append, List.filter_singleton, hnew]
    rfl
  · rcases List.mem_append.1 hw with hw | hw
    · exact hhealed htrue w hw
    · obtain rfl := List.mem_singleton.1 hw
      exact hnew

theorem unregister (name : String) :
    Twin spared heard (p.unregister name).2 (q.unregister name).2 := by
  have hbare : ∀ r : Panel L μ, (r.unregister name).2.bare =
      r.rewatched (r.pins.list.filter (·.pin.name != name)) r.pins.registrations r.memory :=
    fun _ => rfl
  have hmute : ∀ r : Panel L μ, (r.unregister name).2.bulletins = r.bulletins ++ [] :=
    fun r => bulletins_of_past (past_unregister r name)
  refine h.change (hbare p) ?_ (Nat.le_refl _) (hmute p) (hmute q) fun hhealed =>
    ⟨_, .nil _, fun htrue w hw => hhealed htrue w (List.mem_filter.1 hw).1⟩
  rw [hbare q, h.list_eq, h.registrations_eq, List.filter_comm]
  rfl

theorem readPins : Twin spared heard p.readPins.2 q.readPins.2 := by
  have hstore : q.store = p.store := h.same (·.store) fun _ _ _ => rfl
  obtain ⟨hreadings, hkept, -⟩ := WatchPass.run_eq p.store p.pins.list
  obtain ⟨hreadings', hkept', -⟩ := WatchPass.run_eq q.store q.pins.list
  have hbare : ∀ r : Panel L μ, r.readPins.2.bare =
      r.rewatched (WatchPass.run r.store r.pins.list).kept r.pins.registrations r.memory :=
    fun _ => rfl
  refine h.change (hbare p) ?_ (Nat.le_refl _) (bulletins_of_past (past_readPins p))
    (bulletins_of_past (past_readPins q)) fun {healed} hhealed => ?_
  · rw [hbare q, hkept, hkept', h.registrations_eq, hstore, h.list_eq, filterMap_absorb_filter]
    rfl
  · have hfiltered : (WatchPass.run q.store q.pins.list).readings =
        (WatchPass.run p.store p.pins.list).readings.filter fun r => spared r.serial := by
      rw [hreadings', hreadings, hstore, h.list_eq, List.filter_map]
      rfl
    have hspared : healed = true →
        ∀ r ∈ (WatchPass.run p.store p.pins.list).readings, spared r.serial = true := by
      intro htrue r hr
      rw [hreadings] at hr
      obtain ⟨w, hw, rfl⟩ := List.mem_map.1 hr
      exact hhealed htrue w hw
    rw [hfiltered]
    refine ⟨_, .read _ hspared (.nil _), fun hall => ?_⟩
    rw [hkept]
    exact spared_of_kept (hreadings ▸ hall)

end

/-! ### Operations -/

variable (hreact : ∀ l n r, Utters [] r (react l n r).2) (h : Twin spared heard p q)
include hreact h

/-- **A pass of the second panel tells of its own entries**, as the first does. -/
theorem pollPins :
    Twin spared heard (p.pollPins react).2 (q.pollPins react).2 := by
  have hstore : q.store = p.store := h.same (·.store) fun _ _ _ => rfl
  let tiding : Watch → Tiding := fun w => (.pins, w.pin.name, .pin ⟨w.pin.name⟩)
  have htidings : ∀ r : Panel L μ, (pinNotices r.readPins.1.changed).map (Channel.pins, ·) =
      (r.pins.list.filter fun w => w.isTold (r.store.readAs w.pin)).map tiding := by
    intro r
    have hchanged : r.readPins.1.changed = _ := (WatchPass.run_eq r.store r.pins.list).2.2
    rw [hchanged, pinNotices, List.map_map, List.map_map]
    rfl
  rw [pollPins_snd, pollPins_snd]
  refine h.readPins.utters (utters_finishPass hreact ..) (utters_finishPass hreact ..) ?_
  intro healed hhealed
  rw [htidings, htidings, hstore, h.list_eq]
  refine .news _ tiding fun htrue w hw htold => ?_
  -- What is told of has been kept, so it is among what is left.
  obtain ⟨w', habsorb, hserial⟩ := Watch.exists_absorb htold
  have hkept : p.readPins.2.pins.list = _ := (WatchPass.run_eq p.store p.pins.list).2.1
  rw [← hserial]
  exact hhealed htrue w' (by rw [hkept]; exact List.mem_filterMap.2 ⟨w, hw, habsorb⟩)

theorem updateStatus :
    Twin spared heard (p.updateStatus react) (q.updateStatus react) := by
  have hanswer : q.pollSource.1 = p.pollSource.1 := h.same (·.pollSource.1) fun _ _ _ => rfl
  have hpolled : Twin spared heard p.pollSource.2 q.pollSource.2 :=
    h.mute (f := fun r => r.pollSource.2) (fun _ _ _ => rfl) fun r =>
      mute_of_past (past_pollSource r) rfl rfl rfl
  rw [updateStatus_eq, updateStatus_eq, hanswer]
  split
  · next s _ =>
    have hstatus : q.pollSource.2.status = p.pollSource.2.status :=
      hpolled.same (·.status) fun _ _ _ => rfl
    have hcached : Twin spared heard (p.pollSource.2.cache s) (q.pollSource.2.cache s) :=
      hpolled.mute (f := fun r => r.cache s) (fun _ _ _ => rfl) fun _ => ⟨rfl, rfl, rfl⟩
    unfold acceptSnapshot
    rw [hstatus]
    exact hcached.utter (utters_emitAll hreact ..) (utters_emitAll hreact ..)
  · exact hpolled.quiet (f := fun r => r.note _) (fun _ _ _ => rfl) fun r => quiet_note r _

end Twin

/-- **The two panels stay alike.** -/
theorem twin_tandem (hreact : ∀ l n r, Utters [] r (react l n r).2) :
    Tandem ownUpdate react react (Twin spared heard) where
  same f hf h := h.same f hf
  quiet hunseen hquiet h := h.quiet hunseen hquiet
  register pin h := h.register pin
  unregister name h := h.unregister name
  subscribe channel filter listener h :=
    h.mute (unseen_subscribe channel filter listener) (mute_subscribe · ..)
  unsubscribe channel id h := h.mute (unseen_unsubscribe channel id) (mute_unsubscribe · ..)
  clear channel h := h.mute (unseen_clear channel) (mute_clear · channel)
  remember change h := by
    have hremember : ∀ r : Panel L μ, Utters [] r { r with memory := change r.memory } :=
      fun _ => ⟨rfl, (List.append_nil _).symm⟩
    exact h.utter (hremember _) (hremember _)
  pollPins h := h.pollPins hreact
  updateStatus h := h.updateStatus hreact
  requestReload h := h.utter (utters_emitAll hreact ..) (utters_emitAll hreact ..)
  emit channel name notice h := h.utter (utters_emit hreact ..) (utters_emit hreact ..)

/-- The panel with some entries taken off the watch list. -/
def without (p : Panel L μ) (gone : List Nat) : Panel L μ :=
  { p with pins := { p.pins with list := p.pins.list.filter fun w => !gone.contains w.serial } }

theorem twin_without (p : Panel L μ) {gone : List Nat}
    (hgone : ∀ n ∈ gone, n < p.pins.registrations) :
    Twin (fun n => !gone.contains n) p.bulletins p (p.without gone) where
  bare := rfl
  fresh n hn := by
    have hnot : n ∉ gone := fun hmem => Nat.not_lt.2 hn (hgone n hmem)
    simpa using hnot
  echo := ⟨[], [], false, (List.append_nil _).symm, (List.append_nil _).symm, .nil false, nofun⟩

/-- When no others are left, the two panels differ in no entry. -/
theorem Twin.pins_eq (h : Twin spared heard p q)
    (hhealed : ∀ w ∈ p.pins.list, spared w.serial = true) : q.pins = p.pins := by
  have hpins : q.pins = { p.pins with list := p.pins.list.filter fun w => spared w.serial } :=
    congrArg (·.pins) h.bare
  rw [hpins, List.filter_eq_self.2 hhealed]

/-- When listeners only look on, what they do does not change the list. -/
theorem list_pollPins (hreact : ∀ l n r, Utters [] r (react l n r).2) (p : Panel L μ) :
    (p.pollPins react).2.pins.list = p.readPins.2.pins.list := by
  rw [pollPins_snd]
  exact congrArg (·.pins.list) (utters_finishPass hreact ..).bare

/-- **After a pass that leaves none of some entries, it makes no difference whether they
were ever on the list.** -/
theorem isolated_of_healed (hreact : ∀ l n r, Utters [] r (react l n r).2) (p : Panel L μ)
    {gone : List Nat} (hgone : ∀ n ∈ gone, n < p.pins.registrations) (steps : List (Step L μ))
    {earlier later : List Bulletin} {readings : List Reading}
    (hpast : (p.run react steps).bulletins =
      p.bulletins ++ (earlier ++ .read readings :: later))
    (hfailed : ∀ r ∈ readings, r.serial ∈ gone → r.isFailed = true) :
    ((p.without gone).run react steps).pins = (p.run react steps).pins ∧
      ((p.without gone).run react steps).store = (p.run react steps).store ∧ ∃ earlier',
        ((p.without gone).run react steps).bulletins = p.bulletins ++ (earlier' ++
          .read (readings.filter fun r => !gone.contains r.serial) :: later) ∧
        earlier'.filterMap Bulletin.readings? =
          (earlier.filterMap Bulletin.readings?).map
            (List.filter fun r => !gone.contains r.serial) := by
  have htwin := (twin_tandem hreact).run steps (twin_without p hgone)
  rw [runBy_own] at htwin
  obtain ⟨b, b', healed, hb, hb', hechoes, hhealed⟩ := htwin.echo
  obtain rfl : b = _ := List.append_cancel_left (hb.symm.trans hpast)
  obtain ⟨htrue, earlier', rfl, hpasses⟩ :=
    hechoes.split fun r hr hspared => hfailed r hr (by simpa using hspared)
  exact ⟨htwin.pins_eq (hhealed htrue), htwin.same (·.store) fun _ _ _ => rfl,
    earlier', hb', hpasses⟩

/-- **The watch list heals itself, and its entries are isolated from one another.** A pass
removes exactly the entries whose pin is missing or has another type than declared and
keeps the others in their order. An entry that was removed never comes back. As long as
listeners only look on, some entries may as well be taken off the list beforehand: from
the first pass on that leaves none of them, all passes and emissions are the same, and
so are the entries with the values remembered. -/
theorem run_isolated (conduct : Conduct L μ) (depth : Nat) :
    (∀ p : Panel L μ, p.readPins.2.pins.list.map Watch.entry =
      (p.pins.list.filter fun w => p.store.answers w.pin).map Watch.entry) ∧
    (LooksOn conduct → ∀ p : Panel L μ,
      (p.pollPins (conduct.react depth)).2.pins.list = p.readPins.2.pins.list) ∧
    (∀ (setup : Setup) (memory : μ) (steps : List (Step L μ)) (i : Nat)
      (readings : List Reading) (r : Reading),
      let p := (Panel.new setup memory).run (conduct.react depth) steps
      p.past[i]? = some (.pass readings) → r ∈ readings → r.isFailed = true →
        (∀ w ∈ p.pins.list, w.serial ≠ r.serial) ∧
          ∀ j later, i < j → p.past[j]? = some (.pass later) →
            ∀ r' ∈ later, r'.serial ≠ r.serial) ∧
    (LooksOn conduct → ∀ (p : Panel L μ) (gone : List Nat) (steps : List (Step L μ)),
      let p' := p.run (conduct.react depth) steps
      let q' := (p.without gone).run (conduct.react depth) steps
      ∀ earlier readings later, (∀ n ∈ gone, n < p.pins.registrations) →
        p'.bulletins = p.bulletins ++ (earlier ++ .read readings :: later) →
        (∀ r ∈ readings, r.serial ∈ gone → r.isFailed = true) →
          q'.pins = p'.pins ∧ q'.store = p'.store ∧ ∃ earlier',
            q'.bulletins = p.bulletins ++ (earlier' ++
              .read (readings.filter fun r => !gone.contains r.serial) :: later) ∧
            earlier'.filterMap Bulletin.readings? =
              (earlier.filterMap Bulletin.readings?).map
                (List.filter fun r => !gone.contains r.serial)) := by
  refine ⟨entries_readPins, fun hlooks p => list_pollPins (utters_react hlooks depth) p,
    fun setup memory steps i readings r => no_return conduct depth setup memory steps, ?_⟩
  intro hlooks p gone steps p' q' earlier readings later hgone hpast hfailed
  exact isolated_of_healed (utters_react hlooks depth) p hgone steps hpast hfailed

/-- A listener that remembers the names of the pins that it was told of. -/
def noting : Conduct Unit (List String) := fun _ n _ =>
  match n with
  | .pin e => .perform (.remember (e.pin :: ·)) fun _ => .finish .returned
  | _ => .finish .returned

/-- A panel on which a pin is watched twice, once under a type that it does not have. -/
def mistyped : Panel Unit (List String) where
  store := ⟨[("a", ⟨.input, .bit false⟩)]⟩
  pins :=
    { list := [⟨0, ⟨"a", .input, .bit⟩, none⟩, ⟨1, ⟨"a", .input, .s32⟩, none⟩]
      registrations := 2
      bus := (Bus.subscribe {} .any ()).2 }
  memory := []

/-- Two passes, with a change in between. -/
def twoPasses : List (Step Unit (List String)) :=
  [.operation .pollPins, .operation (.drivePin "a" (.bit true)), .operation .pollPins]

theorem run_isolated_mistyped :
    let p' := mistyped.run (noting.react 1) twoPasses
    let q' := (mistyped.without [1]).run (noting.react 1) twoPasses
    LooksOn noting ∧ q'.pins = p'.pins ∧ p'.pins.list.map (·.serial) = [0] ∧
      p'.memory = ["a", "a"] ∧ q'.memory = ["a", "a"] := by
  intro p' q'
  have hlooks : LooksOn noting := by
    intro l n r
    cases n with
    | pin e => exact ⟨rfl, fun _ => trivial⟩
    | status | message => trivial
  obtain ⟨-, -, -, hisolated⟩ := run_isolated noting 1
  let told : Bulletin := .told (.pins, "a", .pin ⟨"a"⟩)
  have hpast : p'.bulletins = mistyped.bulletins ++ ([] ++
      .read [⟨0, ⟨"a", .input, .bit⟩, .ok (.bit false)⟩,
        ⟨1, ⟨"a", .input, .s32⟩, .error (.typeMismatch "a" .s32 .bit)⟩] ::
      [told, .read [⟨0, ⟨"a", .input, .bit⟩, .ok (.bit true)⟩], told]) := by rfl
  obtain ⟨hpins, -, -⟩ := hisolated hlooks mistyped [1] twoPasses _ _ _ (by decide) hpast (by
    simp [Reading.isFailed])
  exact ⟨hlooks, hpins, by rfl, by rfl, by rfl⟩

end Panel

end MachinePanel
