/-
What a homing summary says of the joints. Its two lists enumerate the homed joints
and the axes that are missing, and its count is that of the axes among the joints
(`enumerates_scan`). So to compare the number of homed joints with that of the axes
is to compare the joints that are homed although they are no axes with the axes that
are missing: both numbers count the homed axes as well. The two policies differ only
where such joints make up for missing axes (`scan_verdicts`).
-/
import MachinePanel.Machine.Homing
import Mathlib.Data.List.Sort

namespace MachinePanel

/-- The list names exactly the numbers with a property, in ascending order. -/
structure Enumerates (l : List Nat) (P : Nat → Prop) : Prop where
  ascending : l.Pairwise (· < ·)
  mem_iff : ∀ i, i ∈ l ↔ P i

theorem enumerates_filter_range (n : Nat) (p : Nat → Bool) :
    Enumerates ((List.range n).filter p) fun i => i < n ∧ p i = true where
  ascending := List.pairwise_lt_range.filter p
  mem_iff i := by rw [List.mem_filter, List.mem_range]

theorem Enumerates.congr {l : List Nat} {P Q : Nat → Prop} (h : Enumerates l P)
    (hiff : ∀ i, P i ↔ Q i) : Enumerates l Q :=
  ⟨h.ascending, fun i => (h.mem_iff i).trans (hiff i)⟩

/-- There is one way to enumerate. -/
theorem Enumerates.eq {l₁ l₂ : List Nat} {P : Nat → Prop} (h₁ : Enumerates l₁ P)
    (h₂ : Enumerates l₂ P) : l₁ = l₂ :=
  h₁.ascending.sortedLT.eq_of_mem_iff h₂.ascending.sortedLT fun i =>
    (h₁.mem_iff i).trans (h₂.mem_iff i).symm

theorem Enumerates.filter {l : List Nat} {P : Nat → Prop} (h : Enumerates l P) (p : Nat → Bool) :
    Enumerates (l.filter p) fun i => P i ∧ p i = true where
  ascending := h.ascending.filter p
  mem_iff i := by rw [List.mem_filter, h.mem_iff]

namespace HomingSummary

variable {flags : List Bool} {mask : AxisMask} {policy : HomingPolicy}

/-! ## The summary -/

theorem zipIdx_eq_map_range (flags : List Bool) :
    flags.zipIdx = (List.range flags.length).map fun i => (flags.getD i false, i) := by
  refine List.ext_getElem (by simp) fun i h₁ h₂ => ?_
  have hi : i < flags.length := by simpa using h₁
  simp [hi]

theorem homed_scan (flags : List Bool) (mask : AxisMask) :
    (scan flags mask).homed =
      (List.range flags.length).filter fun i => flags.getD i false := by
  simp only [scan, zipIdx_eq_map_range, List.filter_map, List.map_map]
  exact List.map_id' _

theorem unhomed_scan (flags : List Bool) (mask : AxisMask) :
    (scan flags mask).unhomed =
      (List.range flags.length).filter fun i => mask.contains i && !flags.getD i false := by
  simp only [scan, zipIdx_eq_map_range, List.filter_map, List.map_map]
  exact List.map_id' _

theorem activeAxes_scan (flags : List Bool) (mask : AxisMask) :
    (scan flags mask).activeAxes = mask.countWithin flags.length := by
  simp only [scan, zipIdx_eq_map_range, List.countP_map]
  rfl

/-- The flag of a joint that exists. -/
theorem getElem?_eq_some_iff_getD {i : Nat} (b : Bool) :
    flags[i]? = some b ↔ i < flags.length ∧ flags.getD i false = b := by
  rw [List.getD_eq_getElem?_getD, List.getElem?_eq_some_iff]
  constructor
  · rintro ⟨hi, rfl⟩
    exact ⟨hi, by rw [List.getElem?_eq_getElem hi, Option.getD_some]⟩
  · rintro ⟨hi, rfl⟩
    exact ⟨hi, by rw [List.getElem?_eq_getElem hi, Option.getD_some]⟩

theorem enumerates_homed (flags : List Bool) (mask : AxisMask) :
    Enumerates (scan flags mask).homed fun i => flags[i]? = some true := by
  rw [homed_scan]
  exact (enumerates_filter_range _ _).congr fun i => (getElem?_eq_some_iff_getD true).symm

theorem enumerates_unhomed (flags : List Bool) (mask : AxisMask) :
    Enumerates (scan flags mask).unhomed fun i =>
      mask.contains i = true ∧ flags[i]? = some false := by
  rw [unhomed_scan]
  refine (enumerates_filter_range _ _).congr fun i => ?_
  rw [getElem?_eq_some_iff_getD, Bool.and_eq_true, Bool.not_eq_true']
  tauto

/-! ## The verdicts -/

/-- Both numbers count the homed axes; what is left are the joints that are homed
although they are no axes, and the axes that are not. -/
theorem countP_eq_iff {α : Type} (l : List α) (p q : α → Bool) :
    l.countP p = l.countP q ↔
      (l.filter p).countP (fun a => !q a) = l.countP (fun a => q a && !p a) := by
  have hp : l.countP p = l.countP (fun a => p a && q a) + l.countP (fun a => p a && !q a) := by
    rw [List.countP_eq_countP_filter_add l p q, List.countP_filter, List.countP_filter]
  have hq : l.countP q = l.countP (fun a => p a && q a) + l.countP (fun a => q a && !p a) := by
    rw [List.countP_eq_countP_filter_add l q p, List.countP_filter, List.countP_filter]
    simp only [Bool.and_comm]
  have hf : (l.filter p).countP (fun a => !q a) = l.countP (fun a => p a && !q a) := by
    rw [List.countP_filter]
    simp only [Bool.and_comm]
  omega

theorem allHomed_countMatch_iff (flags : List Bool) (mask : AxisMask) :
    (scan flags mask).allHomed .countMatch = true ↔
      (scan flags mask).homed.countP (fun i => !mask.contains i) =
        (scan flags mask).unhomed.length := by
  have h := countP_eq_iff (List.range flags.length) (fun i => flags.getD i false) mask.contains
  rw [allHomed, beq_iff_eq, activeAxes_scan, homed_scan, unhomed_scan,
    ← List.countP_eq_length_filter, ← List.countP_eq_length_filter]
  exact h

theorem allHomed_activeAxes_iff (flags : List Bool) (mask : AxisMask) :
    (scan flags mask).allHomed .activeAxes = true ↔
      ∀ i, i < flags.length → mask.contains i = true → flags[i]? = some true := by
  have hmem := (enumerates_unhomed flags mask).mem_iff
  rw [allHomed, List.isEmpty_iff, List.eq_nil_iff_forall_not_mem]
  refine forall_congr' fun i => ?_
  rw [hmem i, getElem?_eq_some_iff_getD, getElem?_eq_some_iff_getD]
  constructor
  · intro hnot hi hmask
    refine ⟨hi, ?_⟩
    cases hflag : flags.getD i false with
    | true => rfl
    | false => exact absurd ⟨hmask, hi, hflag⟩ hnot
  · rintro hall ⟨hmask, hi, hfalse⟩
    rw [(hall hi hmask).2] at hfalse
    cases hfalse

/-- The event that reports the verdict. -/
def verdict (s : HomingSummary) (policy : HomingPolicy) : StatusEvent :=
  if s.allHomed policy then .allHomed else .notAllHomed s.unhomed

theorem events_eq (s : HomingSummary) (policy : HomingPolicy) :
    s.events policy = (if s.homed.isEmpty then [] else [.homed s.homed]) ++ [s.verdict policy] :=
  rfl

/-- What is reported beside the homed joints is the verdict. -/
theorem mem_events_iff {s : HomingSummary} {e : StatusEvent} (hne : ∀ joints, e ≠ .homed joints) :
    e ∈ s.events policy ↔ e = s.verdict policy := by
  rw [events_eq, List.mem_append, List.mem_singleton, or_iff_right]
  intro he
  split at he
  · cases he
  · exact hne _ (List.mem_singleton.1 he)

theorem allHomed_mem_events (s : HomingSummary) (policy : HomingPolicy) :
    .allHomed ∈ s.events policy ↔ s.allHomed policy = true := by
  rw [mem_events_iff (by simp), verdict]
  cases s.allHomed policy <;> simp

theorem notAllHomed_mem_events (s : HomingSummary) (policy : HomingPolicy) (joints : List Nat) :
    .notAllHomed joints ∈ s.events policy ↔ s.allHomed policy = false ∧ joints = s.unhomed := by
  rw [mem_events_iff (by simp), verdict]
  cases s.allHomed policy <;> simp

/-- **A summary enumerates the homed joints and the missing axes, and counts the axes
among the joints.** So all joints count as homed under the first policy if as many
joints are homed without being axes as axes are missing, and under the second if no
axis is missing; the two agree unless joints are homed that are no axes. The second
policy never reports that some axes are missing without naming one. -/
theorem scan_verdicts (flags : List Bool) (mask : AxisMask) :
    let s := scan flags mask
    Enumerates s.homed (fun i => flags[i]? = some true) ∧
    Enumerates s.unhomed (fun i => mask.contains i = true ∧ flags[i]? = some false) ∧
    s.activeAxes = mask.countWithin flags.length ∧
    (.allHomed ∈ s.events .countMatch ↔
      s.homed.countP (fun i => !mask.contains i) = s.unhomed.length) ∧
    (.allHomed ∈ s.events .activeAxes ↔
      ∀ i, i < flags.length → mask.contains i = true → flags[i]? = some true) ∧
    ((∀ i, flags[i]? = some true → mask.contains i = true) →
      s.allHomed .countMatch = s.allHomed .activeAxes ∧
        s.events .countMatch = s.events .activeAxes) ∧
    (∀ policy, .allHomed ∈ s.events policy ↔ s.allHomed policy = true) ∧
    (∀ policy, (∃ joints, .notAllHomed joints ∈ s.events policy) ↔ s.allHomed policy = false) ∧
    ∀ joints, .notAllHomed joints ∈ s.events .activeAxes → joints = s.unhomed ∧ joints ≠ [] := by
  intro s
  have hhomed := enumerates_homed flags mask
  refine ⟨hhomed, enumerates_unhomed flags mask, activeAxes_scan flags mask,
    (allHomed_mem_events s _).trans (allHomed_countMatch_iff flags mask),
    (allHomed_mem_events s _).trans (allHomed_activeAxes_iff flags mask), fun hinside => ?_,
    allHomed_mem_events s, fun policy => ?_, fun joints hmem => ?_⟩
  · -- No homed joint is outside of the mask, so both ask whether no axis is missing.
    have hnone : s.homed.countP (fun i => !mask.contains i) = 0 := by
      refine List.countP_eq_zero.2 fun i hi => ?_
      rw [hinside i ((hhomed.mem_iff i).1 hi)]
      decide
    have hsame : s.allHomed .countMatch = s.allHomed .activeAxes := by
      rw [Bool.eq_iff_iff, allHomed_countMatch_iff, hnone, eq_comm, List.length_eq_zero_iff,
        allHomed, List.isEmpty_iff]
    exact ⟨hsame, by rw [events, events, hsame]⟩
  · constructor
    · rintro ⟨joints, hmem⟩
      exact ((notAllHomed_mem_events s policy joints).1 hmem).1
    · exact fun hfalse => ⟨_, (notAllHomed_mem_events s policy _).2 ⟨hfalse, rfl⟩⟩
  · obtain ⟨hfalse, rfl⟩ := (notAllHomed_mem_events s _ joints).1 hmem
    refine ⟨rfl, fun hnil => ?_⟩
    rw [allHomed, hnil] at hfalse
    cases hfalse

/-- Three axes of four joints. With the axes homed and the other joint not, the policies
agree; with that joint homed in place of an axis, they do not. -/
theorem scan_verdicts_fourJoints :
    (scan [true, true, true, false] ⟨0b0111⟩).events .countMatch =
        (scan [true, true, true, false] ⟨0b0111⟩).events .activeAxes ∧
      StatusEvent.allHomed ∈ (scan [true, true, false, true] ⟨0b0111⟩).events .countMatch ∧
      StatusEvent.allHomed ∉ (scan [true, true, false, true] ⟨0b0111⟩).events .activeAxes := by
  obtain ⟨-, -, -, -, -, hsame, -⟩ := scan_verdicts [true, true, true, false] ⟨0b0111⟩
  obtain ⟨-, -, -, hcount, hactive, -⟩ := scan_verdicts [true, true, false, true] ⟨0b0111⟩
  have hinside : ∀ i, [true, true, true, false][i]? = some true →
      (⟨0b0111⟩ : AxisMask).contains i = true := by
    rintro (_ | _ | _ | _ | _) hi
    · decide
    · decide
    · decide
    · cases hi
    · cases hi
  refine ⟨(hsame hinside).2, hcount.2 (by decide), fun hmem => ?_⟩
  exact absurd (hactive.1 hmem 2 (by decide) (by decide)) (by decide)

end HomingSummary

end MachinePanel
