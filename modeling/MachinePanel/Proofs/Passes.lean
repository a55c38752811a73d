/-
The passes of the pin watcher, told by the history. `run_passes` says of every
pass of every run that it reads the entries registered at that moment, in the
order of their registration, and emits one event for each whose value is not
the one read for it before, in the same order; whatever listeners do in the
meantime, other passes included, it emits no other.

The watcher keeps for each entry a value it has seen, which need not be the
one it read last: it is only replaced by a value that differs. As equality is
symmetric and transitive, both tell the same news (`Remembers`).
-/
import MachinePanel.Proofs.Causes
import MachinePanel.Proofs.Ledger
import MachinePanel.Proofs.ValueEquality
import Mathlib.Data.List.Basic

namespace MachinePanel

variable {L : Type}

/-! ## One pass -/

namespace Watch

/-- What a reading makes of an entry; one that fails ends it. -/
def absorb (w : Watch) : Except PinError Value → Option Watch
  | .ok value => some (if w.isNews value then { w with last := some value } else w)
  | .error _ => none

/-- A reading that is news for an entry. -/
def isTold (w : Watch) : Except PinError Value → Bool
  | .ok value => w.isNews value
  | .error _ => false

/-- What a pass reads for an entry, when reading a pin gives this. -/
def reading (read : Handle → Except PinError Value) (w : Watch) : Reading :=
  ⟨w.serial, w.pin, read w.pin⟩

end Watch

/-- A pass reads every entry, keeps those that can be read, and finds the news. -/
theorem WatchPass.run_eq (store : PinStore) (list : List Watch) :
    (WatchPass.run store list).readings = list.map (Watch.reading store.readAs) ∧
      (WatchPass.run store list).kept = list.filterMap (fun w => w.absorb (store.readAs w.pin)) ∧
      (WatchPass.run store list).changed =
        (list.filter fun w => w.isTold (store.readAs w.pin)).map (·.pin.name) := by
  induction list with
  | nil => exact ⟨rfl, rfl, rfl⟩
  | cons w rest ih =>
    obtain ⟨hreadings, hkept, hchanged⟩ := ih
    change (WatchPass.visit store w (WatchPass.run store rest)).readings = _ ∧
      (WatchPass.visit store w (WatchPass.run store rest)).kept = _ ∧
      (WatchPass.visit store w (WatchPass.run store rest)).changed = _
    cases hread : store.readAs w.pin with
    | error e =>
      simp [WatchPass.visit, hread, hreadings, hkept, hchanged, Watch.reading, Watch.absorb,
        Watch.isTold]
    | ok value =>
      cases hnews : w.isNews value <;>
        simp [WatchPass.visit, hread, hnews, hreadings, hkept, hchanged, Watch.reading,
          Watch.absorb, Watch.isTold]

/-! ## The ledger -/

/-- The watch list, and the number of registrations so far. -/
structure Watched where
  list : List Watch := []
  registrations : Nat := 0

namespace Happening

/-- What becomes of the watch list. -/
def rewatch (w : Watched) : Happening L → Watched
  | registered serial pin => ⟨w.list ++ [⟨serial, pin, none⟩], serial + 1⟩
  | unregistered name => { w with list := w.list.filter (·.pin.name != name) }
  | pass readings =>
    { w with list := (w.list.zip readings).filterMap fun x => x.1.absorb x.2.result }
  | _ => w

/-- The number of changes a pass ends with, if the happening is its end. -/
def passEndOf? (number : Nat) : Happening L → Option Nat
  | passEnd n changed => if n = number then some changed else none
  | _ => none

theorem passEndOf?_eq_none {number : Nat} {x : Happening L} (hx : x.subject? ≠ some number) :
    x.passEndOf? number = none := by
  cases x <;> simp_all [passEndOf?, subject?]

end Happening

theorem zip_filterMap_absorb (read : Handle → Except PinError Value) (list : List Watch) :
    (list.zip (list.map (Watch.reading read))).filterMap (fun x => x.1.absorb x.2.result) =
      list.filterMap fun w => w.absorb (read w.pin) := by
  induction list with
  | nil => rfl
  | cons w rest ih =>
    rw [List.map_cons, List.zip_cons_cons, List.filterMap_cons, List.filterMap_cons, ih]
    rfl

/-- After a pass these entries were told, in order and each once, and the pass ended with
their number. -/
structure Told (number : Nat) (names : List String) (happenings : List (Happening L)) : Prop where
  emitted : emissionsFor (.pass number) happenings = (Panel.pinNotices names).map (.pins, ·)
  ended : happenings.filterMap (Happening.passEndOf? number) = [names.length]

/-- The ledger of passes. Its state is the watch list; a pass requires that
the news are told. -/
def passLedger : Ledger L Watched where
  enter := Happening.rewatch
  requires w number
    | .registered serial _, _ => serial = w.registrations
    | .pass readings, l => ∃ read, readings = w.list.map (Watch.reading read) ∧
        Told number ((w.list.filter fun e => e.isTold (read e.pin)).map (·.pin.name)) l
    | _, _ => True
  requires_append {w number x l₁ l₂} h hf := by
    cases x with
    | registered serial pin => exact h
    | pass readings =>
      obtain ⟨read, hreadings, htold⟩ := h
      refine ⟨read, hreadings, ?_, ?_⟩
      · rw [emissionsFor_append, htold.emitted, hf.emissionsFor rfl, List.append_nil]
      · rw [List.filterMap_append, htold.ended,
          hf.filterMap_eq_nil fun _ => Happening.passEndOf?_eq_none, List.append_nil]
    | _ => trivial

namespace Panel

variable {μ : Type} {p q r : Panel L μ} {react : Reaction L μ}

/-- The account of passes. -/
def passes : Account L μ Watched where
  toLedger := passLedger
  view p := ⟨p.pins.list, p.pins.registrations⟩
  view_quiet h := by rw [h.list, h.registrations]
  view_record _ _ := rfl

/-- From `p` to `q` the watch list changes as the history tells, and all passes tell their news. -/
abbrev Passes (underway : List Nat) (p q : Panel L μ) : Prop :=
  passes.Holds underway p q

theorem passes_ignoresBuses : (passes (L := L) (μ := μ)).IgnoresBuses where
  emission _ _ _ _ := ⟨fun _ => rfl, fun _ _ _ => trivial⟩
  call _ _ _ := ⟨fun _ => rfl, fun _ _ _ => trivial⟩
  callEnd _ _ _ := ⟨fun _ => rfl, fun _ _ _ => trivial⟩
  emissionEnd _ _ := ⟨fun _ => rfl, fun _ _ _ => trivial⟩
  subscribed _ _ := ⟨fun _ => rfl, fun _ _ _ => trivial⟩
  unsubscribed _ _ := ⟨fun _ => rfl, fun _ _ _ => trivial⟩
  cleared _ := ⟨fun _ => rfl, fun _ _ _ => trivial⟩
  view_setBus _ channel _ := by cases channel <;> rfl

theorem told_finishPass (hreact : ∀ l n p, Grows [] p (react l n p).2) {number : Nat}
    (names : List String) (p : Panel L μ) (hlt : number < p.past.length) :
    Told number names (since p (p.finishPass react number names)) := by
  have hsince : since p (p.finishPass react number names) =
      since p (p.emitAll react (.pass number) .pins (pinNotices names)) ++
        [.passEnd number names.length] := by
    rw [finishPass, since_append (grows_emitAll hreact _ _ _ p).continues
      ⟨_, (past_record _ _).symm⟩, since_eq (past_record _ _)]
  refine ⟨?_, ?_⟩
  · rw [hsince, emissionsFor_append, emissionsFor_emitAll hreact rfl .pins _ p hlt]
    exact List.append_nil _
  · rw [hsince, List.filterMap_append,
      filterMap_emitAll hreact (fun _ => Happening.passEndOf?_eq_none) _ _ _ p hlt]
    simp [Happening.passEndOf?]

theorem passes_pollPins (hreact : ∀ l n p, Passes [] p (react l n p).2) (p : Panel L μ) :
    Passes [] p (p.pollPins react).2 := by
  rw [pollPins_snd]
  obtain ⟨hreadings, hkept, hchanged⟩ := WatchPass.run_eq p.store p.pins.list
  have hlen : p.past.length < p.readPins.2.past.length := by
    rw [past_readPins]
    simp
  refine Account.holds_enclose (past_readPins p) ?_ (by simp [Happening.subject?]) ?_
    ((passes.holds_course _).strand.finishPass ?_ ?_ _ _)
  · change (⟨(WatchPass.run p.store p.pins.list).kept, p.pins.registrations⟩ : Watched) = _
    rw [hkept, hreadings, ← zip_filterMap_absorb]
    rfl
  · have htold := told_finishPass (fun l n p => (hreact l n p).grows) p.readPins.1.changed
      p.readPins.2 hlen
    refine ⟨p.store.readAs, hreadings, ?_⟩
    change Told p.past.length
      ((p.pins.list.filter fun e => e.isTold (p.store.readAs e.pin)).map (·.pin.name)) _
    rw [← hchanged]
    exact htold
  · exact fun q name =>
      passes_ignoresBuses.emit hreact q (.pass p.past.length) .pins name (.pin ⟨name⟩)
  · exact fun q n => Account.holds_record ⟨fun _ => rfl, fun _ _ _ => trivial⟩
      (by simp [Happening.subject?]) q

theorem passes_updateStatus (hreact : ∀ l n p, Passes [] p (react l n p).2) (p : Panel L μ) :
    Passes [] p (p.updateStatus react) := by
  rw [updateStatus_eq]
  refine Account.holds_enclose (past_pollSource p) rfl (by simp [Happening.subject?]) trivial ?_
  split
  · refine (passes.holds_course _).strand.acceptSnapshot ?_ ?_ _ _
    · exact fun q s => Account.holds_still _ rfl rfl
    · exact fun q e =>
        passes_ignoresBuses.emit hreact q (.update p.past.length) .status e.name (.status e)
  · exact (passes.holds_course _).quiet (quiet_note _ _)

theorem passes_permanent : Permanent (Passes (L := L) (μ := μ) []) where
  toCourse := passes.holds_course []
  steady hreact := passes_ignoresBuses.steady hreact
    (fun p pin => Account.holds_single (past_register p pin) rfl (by simp [Happening.subject?]) rfl)
    (fun p name => Account.holds_single (past_unregister p name) rfl
      (by simp [Happening.subject?]) trivial)
    (passes_pollPins hreact)
  updateStatus := passes_updateStatus

end Panel

/-! ## What the history remembers -/

namespace Reading

/-- The entry that was read. -/
def entry (r : Reading) : Nat × Handle :=
  (r.serial, r.pin)

/-- The value, if it was read for the entry of a serial. -/
def valueFor? (serial : Nat) (r : Reading) : Option Value :=
  if r.serial = serial then r.result.toOption else none

end Reading

namespace Happening

/-- The happening is a registration. -/
def isRegistration : Happening L → Bool
  | registered .. => true
  | _ => false

/-- What becomes of the registered entries. -/
def enrol (entries : List (Nat × Handle)) : Happening L → List (Nat × Handle)
  | registered serial pin => entries ++ [(serial, pin)]
  | unregistered name => entries.filter (·.2.name != name)
  | pass readings => (readings.filter (·.result.isOk)).map Reading.entry
  | _ => entries

/-- The values that were read for the entry of a serial. -/
def valuesFor (serial : Nat) : Happening L → List Value
  | pass readings => readings.filterMap (Reading.valueFor? serial)
  | _ => []

end Happening

/-- How many entries were ever registered. -/
def registrations (past : List (Happening L)) : Nat :=
  past.countP Happening.isRegistration

/-- The registered entries, in the order of their registration: their serials and pins. -/
def registry (past : List (Happening L)) : List (Nat × Handle) :=
  past.foldl Happening.enrol []

/-- The values read for the entry of a serial, one after the other. -/
def valuesRead (serial : Nat) (past : List (Happening L)) : List Value :=
  past.flatMap (Happening.valuesFor serial)

/-- The reading is news: it gave a value, and this is the first for its entry or
differs from the one before. -/
def Reading.isNews (past : List (Happening L)) (r : Reading) : Bool :=
  match r.result with
  | .ok value => (valuesRead r.serial past).getLast?.all (· != value)
  | .error _ => false

theorem registrations_concat (past : List (Happening L)) (x : Happening L) :
    registrations (past ++ [x]) = registrations past + if x.isRegistration then 1 else 0 := by
  rw [registrations, List.countP_append, List.countP_singleton]
  rfl

theorem registry_concat (past : List (Happening L)) (x : Happening L) :
    registry (past ++ [x]) = x.enrol (registry past) := by
  rw [registry, List.foldl_append]
  rfl

theorem valuesRead_concat (serial : Nat) (past : List (Happening L)) (x : Happening L) :
    valuesRead serial (past ++ [x]) = valuesRead serial past ++ x.valuesFor serial := by
  simp [valuesRead]

namespace Watch

/-- The entry of the registry. -/
def entry (w : Watch) : Nat × Handle :=
  (w.serial, w.pin)

theorem entry_absorb {w w' : Watch} {result : Except PinError Value}
    (h : w.absorb result = some w') : w'.entry = w.entry := by
  cases result with
  | error e => cases h
  | ok value =>
    simp only [absorb] at h
    split at h <;> cases h <;> rfl

theorem serial_absorb {w w' : Watch} {result : Except PinError Value}
    (h : w.absorb result = some w') : w'.serial = w.serial :=
  congrArg Prod.fst (entry_absorb h)

end Watch

section Readings

variable {read : Handle → Except PinError Value} {list : List Watch}

/-- What a pass makes of a part of the list, picked by serials and pins, is that part of what it
makes of the list. -/
theorem filterMap_absorb_filter_entry (keep : Nat × Handle → Bool)
    (read : Handle → Except PinError Value) (list : List Watch) :
    (list.filter fun w => keep w.entry).filterMap (fun w => w.absorb (read w.pin)) =
      (list.filterMap fun w => w.absorb (read w.pin)).filter fun w => keep w.entry := by
  rw [List.filterMap_filter, List.filter_filterMap]
  refine List.filterMap_congr fun w _ => ?_
  cases habsorb : w.absorb (read w.pin) with
  | none => simp
  | some w' => simp [Option.filter, Watch.entry_absorb habsorb]

/-- The entries a pass keeps are those it could read. -/
theorem map_entry_absorb (read : Handle → Except PinError Value) (list : List Watch) :
    (list.filterMap fun e => e.absorb (read e.pin)).map Watch.entry =
      ((list.map (Watch.reading read)).filter (·.result.isOk)).map Reading.entry := by
  induction list with
  | nil => rfl
  | cons w rest ih =>
    rw [List.map_cons, List.filterMap_cons, List.filter_cons]
    cases hread : read w.pin with
    | error e =>
      have herror : (w.reading read).result = .error e := hread
      have hnone : w.absorb (.error e) = none := rfl
      rw [hnone, herror]
      exact ih
    | ok value =>
      have hok : (w.reading read).result = .ok value := hread
      obtain ⟨w', hw'⟩ : ∃ w', w.absorb (.ok value) = some w' := ⟨_, rfl⟩
      rw [hw', hok, List.map_cons, Watch.entry_absorb hw', ih]
      rfl

theorem filterMap_valueFor?_eq_nil {serial : Nat} (h : ∀ w ∈ list, w.serial ≠ serial) :
    (list.map (Watch.reading read)).filterMap (Reading.valueFor? serial) = [] := by
  refine List.filterMap_eq_nil_iff.2 fun r hr => ?_
  obtain ⟨w, hw, rfl⟩ := List.mem_map.1 hr
  exact if_neg (h w hw)

/-- A pass reads one value at most for an entry. -/
theorem filterMap_valueFor? {e : Watch} (hord : (list.map Watch.entry).Pairwise (·.1 < ·.1))
    (he : e ∈ list) :
    (list.map (Watch.reading read)).filterMap (Reading.valueFor? e.serial) =
      (read e.pin).toOption.toList := by
  induction list with
  | nil => cases he
  | cons w rest ih =>
    rw [List.map_cons, List.pairwise_cons] at hord
    have hlt : ∀ w' ∈ rest, w.serial < w'.serial := fun w' hw' =>
      hord.1 w'.entry (List.mem_map_of_mem hw')
    rw [List.map_cons, List.filterMap_cons]
    rcases List.mem_cons.1 he with rfl | he
    · rw [filterMap_valueFor?_eq_nil fun w' hw' => Nat.ne_of_gt (hlt w' hw')]
      have hself : (e.reading read).valueFor? e.serial = (read e.pin).toOption := if_pos rfl
      rw [hself]
      cases (read e.pin).toOption <;> rfl
    · have hother : (w.reading read).valueFor? e.serial = none :=
        if_neg (Nat.ne_of_lt (hlt e he))
      rw [hother]
      exact ih hord.2 he

end Readings

/-- The entries of the watch list change with the registry. -/
theorem entries_rewatch {past l : List (Happening L)} {w : Watched} {x : Happening L}
    (h : w.list.map Watch.entry = registry past) (hx : passLedger.requires w past.length x l) :
    (x.rewatch w).list.map Watch.entry = registry (past ++ [x]) := by
  rw [registry_concat, ← h]
  cases x with
  | registered serial pin => exact List.map_append
  | unregistered name =>
    exact (List.filter_map (f := Watch.entry) (p := fun e => e.2.name != name)).symm
  | pass readings =>
    obtain ⟨read, rfl, -⟩ := hx
    simp only [Happening.rewatch, Happening.enrol, zip_filterMap_absorb]
    exact map_entry_absorb read w.list
  | _ => rfl

theorem entries_after {past l : List (Happening L)} {w : Watched}
    (h : w.list.map Watch.entry = registry past) (hl : passLedger.Settled past.length w l) :
    (passLedger.after w l).list.map Watch.entry = registry (past ++ l) := by
  induction l generalizing past w with
  | nil => simpa using h
  | cons x l ih =>
    have htail : passLedger.Settled (past ++ [x]).length (x.rewatch w) l := by
      rw [List.length_append]
      exact hl.tail
    have hrest := ih (entries_rewatch h hl.head) htail
    rwa [List.append_assoc] at hrest

/-- The watch list is the registry of the past, and tells the same news. -/
structure Remembers (past : List (Happening L)) (w : Watched) : Prop where
  count : w.registrations = registrations past
  list : w.list.map Watch.entry = registry past
  ordered : (registry past).Pairwise (·.1 < ·.1)
  below : ∀ e ∈ registry past, e.1 < w.registrations
  fresh : ∀ serial, w.registrations ≤ serial → valuesRead serial past = []
  told : ∀ e ∈ w.list, ∀ value,
    e.isNews value = (valuesRead e.serial past).getLast?.all (· != value)

theorem remembers_nil : Remembers ([] : List (Happening L)) {} where
  count := rfl
  list := rfl
  ordered := .nil
  below := by simp [registry]
  fresh _ _ := rfl
  told := by simp

namespace Remembers

variable {past : List (Happening L)} {w : Watched}

/-- A happening that has nothing to do with the registry. -/
theorem idle {x : Happening L} (h : Remembers past w) (hreg : x.isRegistration = false)
    (henrol : x.enrol (registry past) = registry past)
    (hvalues : ∀ serial, x.valuesFor serial = []) : Remembers (past ++ [x]) w where
  count := by rw [registrations_concat, h.count, hreg]; rfl
  list := by rw [registry_concat, henrol, h.list]
  ordered := by rw [registry_concat, henrol]; exact h.ordered
  below := by rw [registry_concat, henrol]; exact h.below
  fresh serial hs := by rw [valuesRead_concat, hvalues, h.fresh serial hs]; rfl
  told e he value := by rw [valuesRead_concat, hvalues, List.append_nil, h.told e he]

theorem register (h : Remembers past w) (pin : Handle) :
    Remembers (past ++ [.registered w.registrations pin])
      ⟨w.list ++ [⟨w.registrations, pin, none⟩], w.registrations + 1⟩ where
  count := by rw [registrations_concat, h.count]; rfl
  list := entries_rewatch (l := []) (x := .registered w.registrations pin) h.list rfl
  ordered := by
    rw [registry_concat]
    refine List.pairwise_append.2 ⟨h.ordered, List.pairwise_singleton _ _, fun e he e' he' => ?_⟩
    obtain rfl := List.mem_singleton.1 he'
    exact h.below e he
  below e he := by
    rw [registry_concat] at he
    rcases List.mem_append.1 he with he | he
    · exact Nat.lt_succ_of_lt (h.below e he)
    · obtain rfl := List.mem_singleton.1 he
      exact Nat.lt_succ_self _
  fresh serial hs := by
    rw [valuesRead_concat, h.fresh serial (Nat.le_of_succ_le hs)]
    rfl
  told e he value := by
    rw [valuesRead_concat]
    rcases List.mem_append.1 he with he | he
    · rw [h.told e he]
      exact congrArg (fun l => l.getLast?.all (· != value)) (List.append_nil _).symm
    · obtain rfl := List.mem_singleton.1 he
      rw [h.fresh w.registrations (Nat.le_refl _)]
      rfl

theorem unregister (h : Remembers past w) (name : String) :
    Remembers (past ++ [.unregistered name])
      { w with list := w.list.filter (·.pin.name != name) } where
  count := by rw [registrations_concat, h.count]; rfl
  list := entries_rewatch (l := []) (x := .unregistered name) h.list trivial
  ordered := by
    rw [registry_concat]
    exact h.ordered.sublist List.filter_sublist
  below e he := by
    rw [registry_concat] at he
    exact h.below e ((List.mem_filter.1 he).1)
  fresh serial hs := by
    rw [valuesRead_concat, h.fresh serial hs]
    rfl
  told e he value := by
    rw [valuesRead_concat, h.told e ((List.mem_filter.1 he).1)]
    exact congrArg (fun l => l.getLast?.all (· != value)) (List.append_nil _).symm

/-- After a pass the entry has seen a value that is equal to the one just read. -/
theorem isNews_absorb {e e' : Watch} {value : Value} (h : e.absorb (.ok value) = some e')
    (value' : Value) : e'.isNews value' = (value != value') := by
  cases hnews : e.isNews value with
  | true =>
    simp only [Watch.absorb, hnews] at h
    cases h
    rfl
  | false =>
    -- The entry still has the value from before, which is equal to the one just read.
    obtain rfl : e = e' := by simpa [Watch.absorb, hnews] using h
    cases hlast : e.last with
    | none => simp [Watch.isNews, hlast] at hnews
    | some last =>
      have heq : (last == value) = true := by simpa [Watch.isNews, hlast, bne] using hnews
      simp only [Watch.isNews, hlast, bne, Value.beq_congr heq value']

theorem pass (h : Remembers past w) (read : Handle → Except PinError Value) :
    Remembers (past ++ [.pass (w.list.map (Watch.reading read))])
      { w with list := w.list.filterMap fun e => e.absorb (read e.pin) } := by
  have hsub : (registry (past ++ [.pass (w.list.map (Watch.reading read))])).Sublist
      (registry past) := by
    have hentries : (w.list.map (Watch.reading read)).map Reading.entry =
        registry past := by
      rw [← h.list, List.map_map]
      rfl
    rw [registry_concat, ← hentries]
    exact List.filter_sublist.map _
  have hord := h.ordered
  rw [← h.list] at hord
  refine ⟨?_, ?_, h.ordered.sublist hsub, fun e he => h.below e (hsub.mem he), ?_, ?_⟩
  · rw [registrations_concat, h.count]
    rfl
  · rw [registry_concat]
    exact map_entry_absorb read w.list
  · intro serial hs
    rw [valuesRead_concat, h.fresh serial hs]
    refine filterMap_valueFor?_eq_nil fun e he => ?_
    have hlt : e.serial < w.registrations :=
      h.below e.entry (by rw [← h.list]; exact List.mem_map_of_mem he)
    exact Nat.ne_of_lt (Nat.lt_of_lt_of_le hlt hs)
  · intro e' he' value'
    obtain ⟨e, he, habsorb⟩ := List.mem_filterMap.1 he'
    have hserial : e'.serial = e.serial := Watch.serial_absorb habsorb
    cases hread : read e.pin with
    | error err =>
      rw [hread] at habsorb
      cases habsorb
    | ok value =>
      rw [hread] at habsorb
      -- Serials ascend along the list, so this is all the pass read for the entry.
      have hvalues : (Happening.pass (L := L) (w.list.map (Watch.reading read))).valuesFor
          e.serial = [value] := by
        refine (filterMap_valueFor? hord he).trans ?_
        rw [hread]
        rfl
      rw [isNews_absorb habsorb, hserial, valuesRead_concat, hvalues, List.getLast?_concat]
      rfl

theorem step {x : Happening L} {l : List (Happening L)} (h : Remembers past w)
    (hx : passLedger.requires w past.length x l) : Remembers (past ++ [x]) (x.rewatch w) := by
  cases x with
  | registered serial pin =>
    obtain rfl : serial = w.registrations := hx
    exact h.register pin
  | unregistered name => exact h.unregister name
  | pass readings =>
    obtain ⟨read, rfl, -⟩ := hx
    have hpass := h.pass read
    rwa [← zip_filterMap_absorb] at hpass
  | _ => exact h.idle rfl rfl fun _ => rfl

theorem take {l : List (Happening L)} (h : Remembers past w)
    (hl : passLedger.Settled past.length w l) (i : Nat) :
    Remembers (past ++ l.take i) (passLedger.after w (l.take i)) := by
  induction l generalizing past w i with
  | nil => simpa using h
  | cons x l ih =>
    cases i with
    | zero => simpa using h
    | succ i =>
      have htail : passLedger.Settled (past ++ [x]).length (x.rewatch w) l := by
        rw [List.length_append]
        exact hl.tail
      have hrest := ih (h.step hl.head) htail i
      rwa [List.append_assoc] at hrest

/-- The news of a pass, as the watcher and as the history tells it. -/
theorem filter_isNews (h : Remembers past w) (read : Handle → Except PinError Value) :
    (w.list.map (Watch.reading read)).filter (·.isNews past) =
      (w.list.filter fun e => e.isTold (read e.pin)).map (Watch.reading read) := by
  rw [List.filter_map]
  refine congrArg _ (List.filter_congr fun e he => ?_)
  change (e.reading read).isNews past = e.isTold (read e.pin)
  have hresult : (e.reading read).result = read e.pin := rfl
  rw [Reading.isNews, hresult]
  cases read e.pin with
  | error err => rfl
  | ok value => exact (h.told e he value).symm

end Remembers

/-- A pass is as it should be: it read the entries registered by then, in the order of their
registration, and for each reading that is news it emitted one event under the name
of the pin, in this order, and no other. In the end it gave their number. -/
structure PassTold (past : List (Happening L)) (number : Nat) (readings : List Reading) : Prop where
  registered : readings.map Reading.entry = registry (past.take number)
  ordered : readings.Pairwise (·.serial < ·.serial)
  emitted : emissionsFor (.pass number) (past.drop (number + 1)) =
    (readings.filter (·.isNews (past.take number))).map fun r => (.pins, r.pin.name, .pin ⟨r.pin.name⟩)
  ended : (past.drop (number + 1)).filterMap (Happening.passEndOf? number) =
    [(readings.filter (·.isNews (past.take number))).length]

/-- Entries are numbered as they are registered, and every pass is as it should be. -/
structure PassesTold (past : List (Happening L)) : Prop where
  numbered : ∀ n serial pin, past[n]? = some (.registered serial pin) →
    serial = registrations (past.take n)
  passes : ∀ n readings, past[n]? = some (.pass readings) → PassTold past n readings

theorem passesTold_of_settled {past : List (Happening L)} (h : passLedger.Settled 0 {} past) :
    PassesTold past := by
  refine ⟨fun n serial pin hn => ?_, fun n readings hn => ?_⟩
  · have hrequires : serial = _ := h n _ hn
    exact hrequires.trans (remembers_nil.take h n).count
  · have hrem : Remembers (past.take n) _ := remembers_nil.take h n
    obtain ⟨read, rfl, htold⟩ := h n _ hn
    rw [Nat.zero_add] at htold
    have hentries := hrem.list
    have hordered := hrem.ordered
    rw [← hentries, List.pairwise_map] at hordered
    refine ⟨?_, List.pairwise_map.2 hordered, ?_, ?_⟩
    · rw [← hentries, List.map_map]
      rfl
    · rw [htold.emitted, hrem.filter_isNews]
      simp only [Panel.pinNotices, List.map_map]
      rfl
    · rw [htold.ended, hrem.filter_isNews, List.length_map, List.length_map]

namespace Panel

variable {μ : Type}

theorem view_new (setup : Setup) (memory : μ) :
    passes.view (Panel.new setup memory : Panel L μ) = {} :=
  congrArg (fun c : Core L => (⟨c.list, c.registrations⟩ : Watched)) (core_new setup memory)

/-- What the ledger of passes says of a whole run. -/
theorem passes_settled (conduct : Conduct L μ) (depth : Nat) (setup : Setup) (memory : μ)
    (steps : List (Step L μ)) :
    let p := (Panel.new setup memory).run (conduct.react depth) steps
    passLedger.Settled 0 {} p.past ∧ passes.view p = passLedger.after {} p.past := by
  obtain ⟨hsettled, hview⟩ :=
    Account.run_settled passes_permanent conduct depth setup memory steps
  rw [view_new] at hsettled hview
  exact ⟨hsettled, hview⟩

/-- The entries of the watch list are those that the history tells of. -/
def Listed (p : Panel L μ) : Prop :=
  p.pins.list.map Watch.entry = registry p.past

/-- Registering a pin adds an entry that has seen nothing, unregistering a name takes out all its
entries, and the watch list goes on being what the history tells of. -/
structure Enrols (p : Panel L μ) : Prop where
  register : ∀ pin,
    (p.register pin).pins.list = p.pins.list ++ [⟨p.pins.registrations, pin, none⟩] ∧
      registry (p.register pin).past = registry p.past ++ [(p.pins.registrations, pin)] ∧
      (p.register pin).Listed
  newPin : ∀ pin q, p.newPin pin = (.ok (), q) →
    q.pins.list = p.pins.list ++ [⟨p.pins.registrations, pin, none⟩] ∧
      registry q.past = registry p.past ++ [(p.pins.registrations, pin)] ∧ q.Listed
  refused : ∀ pin e q, p.newPin pin = (.error e, q) → q.pins.list = p.pins.list ∧ q.past = p.past
  unregister : ∀ name,
    ((p.unregister name).1 = true ↔ ∃ e ∈ registry p.past, e.2.name = name) ∧
      registry (p.unregister name).2.past = (registry p.past).filter (·.2.name != name) ∧
      (p.unregister name).2.Listed

theorem enrols_register {p : Panel L μ} (h : p.Listed) (pin : Handle) :
    (p.register pin).pins.list = p.pins.list ++ [⟨p.pins.registrations, pin, none⟩] ∧
      registry (p.register pin).past = registry p.past ++ [(p.pins.registrations, pin)] ∧
      (p.register pin).Listed := by
  have hlist : (p.register pin).pins.list =
      p.pins.list ++ [⟨p.pins.registrations, pin, none⟩] := rfl
  have hregistry : registry (p.register pin).past =
      registry p.past ++ [(p.pins.registrations, pin)] := by
    rw [past_register, registry_concat]
    rfl
  refine ⟨hlist, hregistry, ?_⟩
  rw [Listed, hlist, hregistry, List.map_append, h]
  rfl

/-- The watch list goes on being what the history tells of. -/
theorem Listed.of_passes {p q : Panel L μ} (h : p.Listed) (hpq : Passes [] p q) : q.Listed := by
  have hview : passes.view q = passLedger.after (passes.view p) (since p q) := hpq.view
  have hlist : q.pins.list = (passLedger.after (passes.view p) (since p q)).list :=
    congrArg Watched.list hview
  rw [Listed, hlist, hpq.grows.past_eq]
  exact entries_after h (hpq.settled (by simp))

theorem Listed.enrols {p : Panel L μ} (h : p.Listed) : p.Enrols where
  register := enrols_register h
  newPin pin q hq := by
    have hquiet := quiet_createPin p pin
    unfold Panel.newPin at hq
    split at hq
    · next created heq =>
      rw [heq] at hquiet
      cases hq
      have hcreated : created.Listed := by
        rw [Listed, hquiet.list, hquiet.past]
        exact h
      have henrols := enrols_register hcreated pin
      rwa [hquiet.list, hquiet.past, hquiet.registrations] at henrols
    · next hne =>
      exact absurd hq (hne q)
  refused pin e q hq := by
    have hquiet := quiet_createPin p pin
    unfold Panel.newPin at hq
    split at hq
    · cases hq
    · rw [hq] at hquiet
      exact ⟨hquiet.list, hquiet.past⟩
  unregister name := by
    have hlist : (p.unregister name).2.pins.list = p.pins.list.filter (·.pin.name != name) := rfl
    have hregistry : registry (p.unregister name).2.past =
        (registry p.past).filter (·.2.name != name) := by
      rw [past_unregister, registry_concat]
      rfl
    refine ⟨?_, hregistry, ?_⟩
    · have hanswer : (p.unregister name).1 = p.pins.list.any (·.pin.name == name) := rfl
      rw [hanswer, ← h, List.any_eq_true]
      simp [Watch.entry]
    · rw [Listed, hlist, hregistry, ← h]
      exact (List.filter_map (f := Watch.entry) (p := fun e => e.2.name != name)).symm

/-- **Every pass of every run reads the entries registered by then and emits one event for
each whose value is its first or differs from the one read before**, whatever
listeners do meanwhile. A pass at the end of the run shows what is read and given. The
watch list is at all times what registering and unregistering have made of it. -/
theorem run_passes (conduct : Conduct L μ) (depth : Nat) (setup : Setup) (memory : μ)
    (steps : List (Step L μ)) :
    let p := (Panel.new setup memory).run (conduct.react depth) steps
    let polled := p.pollPins (conduct.react depth)
    let readings := (registry p.past).map fun e => ⟨e.1, e.2, p.store.readAs e.2⟩
    PassesTold p.past ∧
      polled.2.past[p.past.length]? = some (.pass readings) ∧
      polled.2.past.take p.past.length = p.past ∧
      PassTold polled.2.past p.past.length readings ∧
      polled.1 = (readings.filter (·.isNews p.past)).length ∧
      p.Listed ∧
      (∀ q : Panel L μ, q.Listed → q.Enrols ∧ ∀ l n, (conduct.react depth l n q).2.Listed) ∧
      (∀ x : Float, x.isNaN = true → (Value.float x == .float x) = false) ∧
      (Value.float 0.0 == .float (-0.0)) = true := by
  intro p polled readings
  obtain ⟨hsettled, hview⟩ := passes_settled conduct depth setup memory steps
  have hpolled : polled.2 =
      (Panel.new setup memory).run (conduct.react depth) (steps ++ [.operation .pollPins]) := by
    rw [run, List.foldl_append]
    rfl
  have hafter : PassesTold polled.2.past := by
    rw [hpolled]
    exact passesTold_of_settled
      (passes_settled conduct depth setup memory (steps ++ [.operation .pollPins])).1
  have hrem : Remembers p.past (passes.view p) := by
    have htake := remembers_nil.take hsettled p.past.length
    rwa [List.take_length, List.nil_append, ← hview] at htake
  have hreadings : readings = p.pins.list.map (Watch.reading p.store.readAs) := by
    change (registry p.past).map _ = _
    rw [← hrem.list, List.map_map]
    rfl
  obtain ⟨hrun, -, hchanged⟩ := WatchPass.run_eq p.store p.pins.list
  have hgrows : p.readPins.2.past <+: polled.2.past :=
    (grows_finishPass (grows_permanent.reaction conduct depth) p.past.length
      p.readPins.1.changed p.readPins.2).continues
  rw [past_readPins, hrun, ← hreadings] at hgrows
  obtain ⟨later, hlater⟩ := hgrows
  have hpass : polled.2.past[p.past.length]? = some (.pass readings) := by
    rw [← hlater]
    simp
  refine ⟨passesTold_of_settled hsettled, hpass, ?_, hafter.passes _ _ hpass, ?_, hrem.list,
    fun q hq => ⟨hq.enrols, fun l n => ?_⟩, fun x => Binary64.beq_self_of_isNaN,
    Binary64.beq_zeros⟩
  · rw [← hlater]
    simp
  · change (WatchPass.run p.store p.pins.list).changed.length = _
    have hnews : (p.pins.list.map (Watch.reading p.store.readAs)).filter (·.isNews p.past) = _ :=
      hrem.filter_isNews p.store.readAs
    rw [hchanged, hreadings, hnews, List.length_map, List.length_map]
    rfl
  · exact hq.of_passes (passes_permanent.reaction conduct depth l n q)

end Panel

end MachinePanel
