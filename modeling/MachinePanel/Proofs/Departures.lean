/-
Entries that leave the watch list. A pass keeps the entries whose pin is there
with the declared type, in their order, and drops all others
(`entries_readPins`). An entry that is dropped has left for good: what its pin
was registered under is never given again, so that neither a pass nor a new
registration brings it back (`Departed`). A pin that is made again may be
registered again; that is another entry.
-/
import MachinePanel.Proofs.Intact
import MachinePanel.Proofs.Passes
import Mathlib.Data.List.Nodup

namespace MachinePanel

/-- There is a pin of the name of the handle, and it has the declared type. -/
def PinStore.answers (store : PinStore) (pin : Handle) : Bool :=
  (store.slot? pin.name).any fun slot => slot.type = pin.type

theorem PinStore.isOk_readAs (store : PinStore) (pin : Handle) :
    (store.readAs pin).isOk = store.answers pin := by
  unfold readAs PinStore.read answers
  cases store.slot? pin.name with
  | none => rfl
  | some slot =>
    by_cases htype : slot.type = pin.type
    · have htype' : slot.value.type = pin.type := htype
      simp [htype, htype', Except.isOk, Except.toBool]
    · have htype' : slot.value.type ≠ pin.type := htype
      simp [htype, htype', Except.isOk, Except.toBool]

/-- A pass keeps no entry that it could not read. -/
theorem Watch.absorb_of_failed {w : Watch} {read : Handle → Except PinError Value}
    (h : (w.reading read).isFailed = true) : w.absorb (read w.pin) = none := by
  have hread : (w.reading read).result = read w.pin := rfl
  rw [Reading.isFailed, hread] at h
  cases hresult : read w.pin with
  | ok value =>
    rw [hresult] at h
    cases h
  | error e => rfl

/-- **A pass removes exactly the entries whose pin is missing or has another type**, and
keeps the others in their order. -/
theorem Panel.entries_readPins {L μ : Type} (p : Panel L μ) :
    p.readPins.2.pins.list.map Watch.entry =
      (p.pins.list.filter fun w => p.store.answers w.pin).map Watch.entry := by
  have hkept : p.readPins.2.pins.list =
      p.pins.list.filterMap fun w => w.absorb (p.store.readAs w.pin) :=
    (WatchPass.run_eq p.store p.pins.list).2.1
  rw [hkept, map_entry_absorb, List.filter_map, List.map_map]
  simp only [← PinStore.isOk_readAs]
  rfl

/-! ## No return -/

variable {L : Type} {serial base : Nat} {w : Watched}

/-- The entry of a serial has been registered and is not on the list any more. -/
structure Departed (serial : Nat) (w : Watched) : Prop where
  issued : serial < w.registrations
  absent : ∀ e ∈ w.list, e.serial ≠ serial

namespace Departed

/-- Nothing that happens brings the entry back. -/
theorem step {x : Happening L} {number : Nat} {l : List (Happening L)} (h : Departed serial w)
    (hx : passLedger.requires w number x l) : Departed serial (x.rewatch w) := by
  cases x with
  | registered serial' pin =>
    obtain rfl : serial' = w.registrations := hx
    refine ⟨Nat.lt_succ_of_lt h.issued, fun e he => ?_⟩
    rcases List.mem_append.1 he with he | he
    · exact h.absent e he
    · obtain rfl := List.mem_singleton.1 he
      exact Nat.ne_of_gt h.issued
  | unregistered name => exact ⟨h.issued, fun e he => h.absent e (List.mem_filter.1 he).1⟩
  | pass readings =>
    refine ⟨h.issued, fun e' he' => ?_⟩
    obtain ⟨⟨e, r⟩, he, habsorb⟩ := List.mem_filterMap.1 he'
    rw [Watch.serial_absorb habsorb]
    exact h.absent e (List.of_mem_zip he).1
  | _ => exact h

theorem take {l : List (Happening L)} (h : Departed serial w)
    (hl : passLedger.Settled base w l) (i : Nat) :
    Departed serial (passLedger.after w (l.take i)) := by
  induction l generalizing base w i with
  | nil => simpa using h
  | cons x l ih =>
    cases i with
    | zero => exact h
    | succ i => exact ih (h.step hl.head) hl.tail i

end Departed

/-- An entry that could not be read has left. -/
theorem Remembers.departed {past : List (Happening L)} (h : Remembers past w)
    {read : Handle → Except PinError Value} {e : Watch} (he : e ∈ w.list)
    (hfailed : (e.reading read).isFailed = true) :
    Departed e.serial
      ((Happening.pass (L := L) (w.list.map (Watch.reading read))).rewatch w) := by
  have hentry : e.entry ∈ registry past := h.list ▸ List.mem_map_of_mem he
  refine ⟨h.below _ hentry, fun e' he' hserial => ?_⟩
  change e' ∈ (w.list.zip (w.list.map (Watch.reading read))).filterMap _ at he'
  rw [zip_filterMap_absorb] at he'
  obtain ⟨kept, hkept, habsorb⟩ := List.mem_filterMap.1 he'
  have hordered := h.ordered
  rw [← h.list, List.pairwise_map] at hordered
  have hnodup : (w.list.map Watch.serial).Nodup :=
    List.pairwise_map.2 (hordered.imp fun hlt => Nat.ne_of_lt hlt)
  -- The serial is that of no other entry, but this one could not be read.
  obtain rfl : kept = e := List.inj_on_of_nodup_map hnodup hkept he
    ((Watch.serial_absorb habsorb).symm.trans hserial)
  rw [Watch.absorb_of_failed hfailed] at habsorb
  cases habsorb

/-- An entry that a pass could not read has left for good. -/
theorem departed_after_pass {past : List (Happening L)} (h : passLedger.Settled 0 {} past)
    {i : Nat} {readings : List Reading} (hi : past[i]? = some (.pass readings)) {r : Reading}
    (hr : r ∈ readings) (hfailed : r.isFailed = true) (k : Nat) :
    Departed r.serial (passLedger.after {} (past.take (i + 1 + k))) := by
  have hremembers : Remembers (past.take i) (passLedger.after {} (past.take i)) :=
    remembers_nil.take h i
  obtain ⟨read, hreadings, -⟩ := h i _ hi
  rw [hreadings] at hr hi
  obtain ⟨e, he, rfl⟩ := List.mem_map.1 hr
  have hpassed : Departed e.serial (passLedger.after {} (past.take (i + 1))) := by
    rw [List.take_add_one, hi, Ledger.after_append]
    exact hremembers.departed he hfailed
  rw [List.take_add, Ledger.after_append]
  exact hpassed.take (h.drop (i + 1)) k

namespace Panel

variable {μ : Type}

/-- **An entry that a pass could not read never comes back**, whatever listeners do and
whatever is made or registered: it is not on the list, and no later pass reads it. -/
theorem no_return (conduct : Conduct L μ) (depth : Nat) (setup : Setup) (memory : μ)
    (steps : List (Step L μ)) {i : Nat} {readings : List Reading} {r : Reading} :
    let p := (Panel.new setup memory).run (conduct.react depth) steps
    p.past[i]? = some (.pass readings) → r ∈ readings → r.isFailed = true →
      (∀ w ∈ p.pins.list, w.serial ≠ r.serial) ∧
        ∀ j later, i < j → p.past[j]? = some (.pass later) →
          ∀ r' ∈ later, r'.serial ≠ r.serial := by
  intro p hi hr hfailed
  obtain ⟨hsettled, hview⟩ := passes_settled conduct depth setup memory steps
  have hdeparted := departed_after_pass hsettled hi hr hfailed
  refine ⟨?_, fun j later hij hj r' hr' => ?_⟩
  · have hend := hdeparted p.past.length
    rw [List.take_of_length_le (Nat.le_add_left ..), ← hview] at hend
    exact hend.absent
  · obtain ⟨k, rfl⟩ := Nat.exists_eq_add_of_le hij
    obtain ⟨read, hreadings, -⟩ := hsettled _ _ hj
    rw [hreadings] at hr'
    obtain ⟨e, he, rfl⟩ := List.mem_map.1 hr'
    exact (hdeparted k).absent e he

end Panel

end MachinePanel
