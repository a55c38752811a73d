/-
A mask as a set of axes. Below 32 to be contained is to be a bit that is set, and from 32 on there
are no such bits, so that a mask is known by what it contains (`eq_of_contains`). A list puts its
indices into a mask one by one, whatever their order and however often (`contains_ofAxes`).

Two functions count. One adds up the bits of the number, the other asks the joints from the first
one on. Both count the same list: the axes of the mask in ascending order, of which the second one
stops at a joint (`length_axes`, `countWithin_eq_countP`). They agree just if no axis lies at or
beyond that joint, and so from 32 joints on.
-/
import MachinePanel.Proofs.Homing
import Mathlib.Algebra.Ring.Parity
import Mathlib.Data.Finset.Card
import Mathlib.Data.Nat.BitIndices

namespace MachinePanel

namespace AxisMask

variable {mask : AxisMask} {n : Nat}

/-! ## What a mask contains -/

theorem lt_of_contains {i : Nat} (h : mask.contains i = true) : i < 32 := by
  simp only [contains, Bool.and_eq_true, decide_eq_true_eq] at h
  exact h.1

/-- The guard of the bit test changes nothing: there are no bits from 32 on. -/
theorem contains_eq_testBit (mask : AxisMask) (i : Nat) :
    mask.contains i = mask.bits.toNat.testBit i := by
  by_cases hi : i < 32
  · simp [contains, hi]
  · have hbits : mask.bits.toNat < 2 ^ i :=
      Nat.lt_of_lt_of_le mask.bits.toNat_lt (Nat.pow_le_pow_right (by decide) (by omega))
    simp [contains, hi, Nat.testBit_lt_two_pow hbits]

theorem eq_of_contains {mask₁ mask₂ : AxisMask}
    (h : ∀ i, mask₁.contains i = true ↔ mask₂.contains i = true) : mask₁ = mask₂ := by
  have hbits : mask₁.bits.toNat = mask₂.bits.toNat := by
    refine Nat.eq_of_testBit_eq fun i => ?_
    rw [← contains_eq_testBit, ← contains_eq_testBit, Bool.eq_iff_iff]
    exact h i
  obtain ⟨bits₁⟩ := mask₁
  obtain ⟨bits₂⟩ := mask₂
  exact congrArg mk (UInt32.toNat_inj.1 hbits)

@[simp] theorem contains_none (i : Nat) : none.contains i = false := by
  simp [contains, none]

theorem toNat_one_shiftLeft {i : Nat} (hi : i < 32) :
    ((1 : UInt32) <<< UInt32.ofNat i).toNat = 2 ^ i := by
  have hpow : 2 ^ i < 2 ^ 32 := Nat.pow_lt_pow_right (by decide) hi
  simp only [UInt32.toNat_shiftLeft, UInt32.toNat_one, UInt32.toNat_ofNat', Nat.shiftLeft_eq,
    Nat.one_mul]
  rw [Nat.mod_eq_of_lt (show i < 2 ^ 32 by omega), Nat.mod_eq_of_lt hi, Nat.mod_eq_of_lt hpow]

theorem contains_insert (mask : AxisMask) (index i : Nat) :
    (mask.insert index).contains i = true ↔
      mask.contains i = true ∨ i < 32 ∧ i = index := by
  by_cases hindex : index < 32
  · simp only [insert, hindex, if_true, contains_eq_testBit, UInt32.toNat_or,
      toNat_one_shiftLeft hindex, Nat.testBit_or, Nat.testBit_two_pow, Bool.or_eq_true,
      decide_eq_true_eq]
    exact or_congr_right (by omega)
  · simp only [insert, hindex, if_false]
    exact (or_iff_left (by omega)).symm

theorem contains_foldl_insert (list : List Nat) (mask : AxisMask) (i : Nat) :
    (list.foldl insert mask).contains i = true ↔
      mask.contains i = true ∨ i < 32 ∧ i ∈ list := by
  induction list generalizing mask with
  | nil => simp
  | cons index list ih =>
    rw [List.foldl_cons, ih, contains_insert, List.mem_cons]
    tauto

theorem contains_ofAxes (list : List Nat) (i : Nat) :
    (ofAxes list).contains i = true ↔ i < 32 ∧ i ∈ list := by
  simp [ofAxes, contains_foldl_insert]

/-! ## The axes in ascending order -/

/-- The axes of a mask, from the lowest to the highest. -/
def axes (mask : AxisMask) : List Nat :=
  (List.range 32).filter mask.contains

theorem enumerates_axes (mask : AxisMask) :
    Enumerates mask.axes fun i => mask.contains i = true :=
  (enumerates_filter_range 32 mask.contains).congr fun _ => and_iff_right_of_imp lt_of_contains

theorem ofAxes_axes (mask : AxisMask) : ofAxes mask.axes = mask := by
  refine eq_of_contains fun i => ?_
  rw [contains_ofAxes, (enumerates_axes mask).mem_iff]
  exact and_iff_right_of_imp lt_of_contains

theorem enumerates_bitIndices (mask : AxisMask) :
    Enumerates mask.bits.toNat.bitIndices fun i => mask.contains i = true where
  ascending := Nat.bitIndices_sorted.pairwise
  mem_iff i := by rw [Nat.mem_bitIndices, contains_eq_testBit]

/-! ## The counts -/

/-- To halve a number moves its bits down by one and drops the lowest. -/
theorem length_bitIndices (m : Nat) : m.bitIndices.length = onesCount m := by
  fun_induction onesCount m with
  | case1 => simp
  | case2 m hm ih =>
    obtain ⟨half, rfl | rfl⟩ := Nat.even_or_odd' m
    · rw [← ih, Nat.bitIndices_two_mul, List.length_map]
      simp
    · have hhalf : (2 * half + 1) / 2 = half := by omega
      have hlow : (2 * half + 1) % 2 = 1 := by omega
      rw [← ih, hhalf, hlow, Nat.bitIndices_two_mul_add_one, List.length_cons, List.length_map,
        Nat.add_comm]

theorem length_axes (mask : AxisMask) : mask.axes.length = mask.count := by
  rw [(enumerates_axes mask).eq (enumerates_bitIndices mask), length_bitIndices, count]

theorem countWithin_eq_countP (mask : AxisMask) (n : Nat) :
    mask.countWithin n = mask.axes.countP (· < n) := by
  have hfilter : (List.range n).filter mask.contains = mask.axes.filter (· < n) := by
    refine (enumerates_filter_range n mask.contains).eq ?_
    refine ((enumerates_axes mask).filter (· < n)).congr fun i => ?_
    rw [decide_eq_true_eq]
    exact and_comm
  rw [countWithin, List.countP_eq_length_filter, hfilter, List.countP_eq_length_filter]

theorem countWithin_eq_card (mask : AxisMask) (n : Nat) :
    mask.countWithin n = {i ∈ Finset.range n | mask.contains i = true}.card := by
  have hrange : {i ∈ Finset.range n | mask.contains i = true} =
      ((List.range n).filter mask.contains).toFinset := by
    ext i
    simp
  rw [hrange, List.toFinset_card_of_nodup (List.nodup_range.filter _), countWithin,
    List.countP_eq_length_filter]

theorem countWithin_mono (mask : AxisMask) : Monotone mask.countWithin := by
  intro n₁ n₂ hn
  rw [countWithin_eq_countP, countWithin_eq_countP]
  refine List.countP_mono_left fun i _ hi => ?_
  simp only [decide_eq_true_eq] at hi ⊢
  omega

theorem countWithin_le (mask : AxisMask) (n : Nat) : mask.countWithin n ≤ min n 32 := by
  have hjoints : mask.countWithin n ≤ n := by
    simpa [countWithin] using List.countP_le_length (p := mask.contains) (l := List.range n)
  have haxes : mask.axes.length ≤ 32 := by
    simpa [axes] using List.length_filter_le mask.contains (List.range 32)
  have hcount : mask.countWithin n ≤ mask.axes.length := by
    rw [countWithin_eq_countP]
    exact List.countP_le_length
  omega

/-- The axes among the first joints are all axes just if none lies further on. -/
theorem countWithin_eq_count_iff :
    mask.countWithin n = mask.count ↔ ∀ i, mask.contains i = true → i < n := by
  rw [countWithin_eq_countP, ← length_axes, List.countP_eq_length]
  simp only [(enumerates_axes mask).mem_iff, decide_eq_true_eq]

theorem countWithin_of_le (mask : AxisMask) (h : 32 ≤ n) : mask.countWithin n = mask.count :=
  countWithin_eq_count_iff.2 fun _ hi => Nat.lt_of_lt_of_le (lt_of_contains hi) h

/-- **A mask is a set of indices below 32, and its counts are numbers of elements.** A list makes
the mask of its indices below 32. The count among the first joints is the number of axes below,
grows with the joints, and ends at the count of all axes, at 32 joints at the latest. The axes in
ascending order make the mask again. -/
theorem axes_exact :
    (∀ (list : List Nat) (i : Nat), (ofAxes list).contains i = true ↔ i < 32 ∧ i ∈ list) ∧
    ∀ mask : AxisMask,
      (∀ n, mask.countWithin n = {i ∈ Finset.range n | mask.contains i = true}.card) ∧
      Monotone mask.countWithin ∧
      (∀ n, mask.countWithin n ≤ min n 32) ∧
      (∀ n, mask.countWithin n = mask.count ↔ ∀ i, mask.contains i = true → i < n) ∧
      (∀ n, 32 ≤ n → mask.countWithin n = mask.count) ∧
      Enumerates mask.axes (fun i => mask.contains i = true) ∧
      ofAxes mask.axes = mask := by
  refine ⟨contains_ofAxes, fun mask => ?_⟩
  exact ⟨countWithin_eq_card mask, countWithin_mono mask, countWithin_le mask,
    fun n => countWithin_eq_count_iff, fun n hn => countWithin_of_le mask hn,
    enumerates_axes mask, ofAxes_axes mask⟩

/-- Indices out of order, one of them twice, and two that are too large. The highest axis is
missed at 31 joints and counted at 40. -/
theorem axes_exact_highIndices :
    (ofAxes [31, 2, 40, 2, 0, 32]).contains 31 = true ∧
      ¬ (ofAxes [31, 2, 40, 2, 0, 32]).contains 32 = true ∧
      32 ≤ 40 ∧ (ofAxes [31, 2, 40, 2, 0, 32]).countWithin 40 =
        (ofAxes [31, 2, 40, 2, 0, 32]).count ∧
      (ofAxes [31, 2, 40, 2, 0, 32]).countWithin 31 ≠ (ofAxes [31, 2, 40, 2, 0, 32]).count := by
  obtain ⟨hcontains, hmask⟩ := axes_exact
  obtain ⟨-, -, -, hall, hbeyond, -⟩ := hmask (ofAxes [31, 2, 40, 2, 0, 32])
  have hhighest : (ofAxes [31, 2, 40, 2, 0, 32]).contains 31 = true :=
    (hcontains _ 31).2 (by decide)
  refine ⟨hhighest, fun h => ?_, by decide, hbeyond 40 (by decide), fun h => ?_⟩
  · exact absurd ((hcontains _ 32).1 h).1 (by decide)
  · exact absurd ((hall 31).1 h 31 hhighest) (by decide)

end AxisMask

/-- A summary counts all axes of the machine just if there is a joint for each of them. -/
theorem HomingSummary.activeAxes_eq_count_iff (flags : List Bool) (mask : AxisMask) :
    (scan flags mask).activeAxes = mask.count ↔
      ∀ i, mask.contains i = true → i < flags.length := by
  rw [activeAxes_scan]
  exact AxisMask.countWithin_eq_count_iff

end MachinePanel
