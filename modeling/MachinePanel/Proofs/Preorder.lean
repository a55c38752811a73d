/-
Depth-first order. A traversal in this order has each element, then all that is below
it, then its next sibling (`Preorder`). The walk gets there with a stack. It takes the
number on top off and puts the children of this element there in its place, until the
stack is empty (`Unwinds`). Each number on the stack stands for its subtree, so what
comes of a stack is its preorder (`Preorder.unwinds`).

Children come after their parents, so that there is a preorder below every element
(`exists_preorder`), and it is as long as the forest has elements, since the walk comes
through each of them once. So the walk that ends after as many steps leaves nothing on
the stack (`traversal_preorder`).
-/
import MachinePanel.Proofs.Traversal
import Mathlib.Logic.Relation

namespace MachinePanel.Forest

variable {f : Forest} {id : Nat} {ids ids' order order' stack : List Nat}

/-- The elements of several siblings: each one, with all that is below it before the next. -/
inductive Preorder (f : Forest) : List Nat → List Nat → Prop where
  | nil : Preorder f [] []
  | cons {id : Nat} {siblings below after : List Nat} (hbelow : Preorder f (f.children id) below)
      (hafter : Preorder f siblings after) : Preorder f (id :: siblings) (id :: (below ++ after))

/-- A walk that goes on for as long as there is something on the stack. -/
inductive Unwinds (f : Forest) : List Nat → List Nat → Prop where
  | nil : Unwinds f [] []
  | pop {id : Nat} {stack order : List Nat} (h : Unwinds f (f.children id ++ stack) order) :
      Unwinds f (id :: stack) (id :: order)

/-- The second element is a child of the first. -/
def Child (f : Forest) (parent child : Nat) : Prop :=
  child ∈ f.children parent

/-- The second element is below the first. -/
def Below (f : Forest) : Nat → Nat → Prop :=
  Relation.TransGen f.Child

/-! ## The stack -/

/-- What is on the stack already waits until all that is put on top of it has been unwound. -/
theorem Preorder.unwinds_append (h : f.Preorder ids order) (hstack : f.Unwinds stack order') :
    f.Unwinds (ids ++ stack) (order ++ order') := by
  induction h generalizing stack order' with
  | nil => exact hstack
  | cons _ _ ihbelow ihafter =>
    rw [List.cons_append, List.cons_append, List.append_assoc]
    exact .pop (ihbelow (ihafter hstack))

theorem Preorder.unwinds (h : f.Preorder ids order) : f.Unwinds ids order := by
  have hunwinds := h.unwinds_append .nil
  rwa [List.append_nil, List.append_nil] at hunwinds

theorem Unwinds.eq (h : f.Unwinds stack order) (h' : f.Unwinds stack order') : order = order' := by
  induction h generalizing order' with
  | nil =>
    cases h'
    rfl
  | pop _ ih =>
    cases h' with
    | pop h' => rw [ih h']

/-- A walk of limited length is where the walk without a limit begins. -/
theorem Unwinds.walk_eq (h : f.Unwinds stack order) (fuel : Nat) :
    f.walk fuel stack = order.take fuel := by
  induction h generalizing fuel with
  | nil => cases fuel <;> rfl
  | pop _ ih =>
    cases fuel with
    | zero => rfl
    | succ fuel => rw [walk, List.take_succ_cons, ih]

/-! ## There is a preorder -/

theorem exists_preorder_of_forall (h : ∀ id ∈ ids, ∃ below, f.Preorder (f.children id) below) :
    ∃ order, f.Preorder ids order := by
  induction ids with
  | nil => exact ⟨[], .nil⟩
  | cons id rest ih =>
    obtain ⟨below, hbelow⟩ := h id (by simp)
    obtain ⟨after, hafter⟩ := ih fun i hi => h i (by simp [hi])
    exact ⟨_, .cons hbelow hafter⟩

/-- The numbers grow on the way down, and end with the last element. -/
theorem exists_preorder (hup : ∀ parent, ∀ child ∈ f.children parent, parent < child)
    (ids : List Nat) : ∃ order, f.Preorder ids order := by
  have hbelow : ∀ n id, f.size - id ≤ n → ∃ below, f.Preorder (f.children id) below := by
    intro n
    induction n with
    | zero =>
      intro id hid
      rw [children_eq_nil (by omega)]
      exact ⟨[], .nil⟩
    | succ n ih =>
      intro id hid
      refine exists_preorder_of_forall fun child hchild => ih child ?_
      have hlt := hup id child hchild
      omega
  exact exists_preorder_of_forall fun id _ => hbelow _ id (Nat.le_refl _)

/-- **The traversal is in preorder**, and comes to its end. -/
theorem traversal_preorder (h : f.Planted) : f.Preorder f.roots f.traversal := by
  obtain ⟨order, horder⟩ := exists_preorder h.upward f.roots
  have hwalk := horder.unwinds.walk_eq
  have hlength : (f.walk (f.size + 1) f.roots).length = f.size := by
    rw [(walk_perm h.upward (by simp) h.links).length_eq, List.length_range]
  rw [hwalk, List.length_take] at hlength
  rw [traversal, hwalk, List.take_of_length_le (by omega)]
  exact horder

/-! ## What a preorder is like -/

theorem Preorder.sublist (h : f.Preorder ids order) : ids.Sublist order := by
  induction h with
  | nil => exact .slnil
  | cons _ _ _ ihafter => exact (ihafter.trans (List.sublist_append_right ..)).cons_cons _

/-- It has the siblings and what is below one of them. -/
theorem Preorder.mem_iff (h : f.Preorder ids order) :
    id ∈ order ↔ ∃ sibling ∈ ids, Relation.ReflTransGen f.Child sibling id := by
  induction h with
  | nil => simp
  | @cons first siblings below after _ _ ihbelow ihafter =>
    have hfirst : id = first ∨ id ∈ below ↔ Relation.ReflTransGen f.Child first id := by
      rw [ihbelow, Relation.ReflTransGen.cases_head_iff, eq_comm]
      rfl
    rw [List.mem_cons, List.mem_append, ← or_assoc, hfirst, ihafter, List.exists_mem_cons_iff]

theorem Preorder.mem_children_iff (h : f.Preorder (f.children id) order) (other : Nat) :
    other ∈ order ↔ f.Below id other := by
  rw [h.mem_iff, Below, Relation.TransGen.head'_iff]
  rfl

/-- An element is followed by what is below it, in preorder. -/
theorem Preorder.exists_block (h : f.Preorder ids order) (hid : id ∈ order) :
    ∃ before below after, order = before ++ id :: (below ++ after) ∧
      f.Preorder (f.children id) below := by
  induction h with
  | nil => cases hid
  | @cons first siblings below after hbelow _ ihbelow ihafter =>
    rcases List.mem_cons.1 hid with rfl | hid
    · exact ⟨[], below, after, rfl, hbelow⟩
    · rcases List.mem_append.1 hid with hid | hid
      · obtain ⟨before, below', after', heq, hblock⟩ := ihbelow hid
        refine ⟨first :: before, below', after' ++ after, ?_, hblock⟩
        simp [heq]
      · obtain ⟨before, below', after', heq, hblock⟩ := ihafter hid
        refine ⟨first :: (below ++ before), below', after', ?_, hblock⟩
        simp [heq]

/-- An order of all elements in which each one is followed at once by those below it, and by
them alone, and in which siblings are in the order in which their parent has them. -/
structure DepthFirst (f : Forest) (order : List Nat) : Prop where
  once : order.Perm (List.range f.size)
  preorder : f.Preorder f.roots order
  blocks : ∀ id < f.size, ∃ before below after, order = before ++ id :: (below ++ after) ∧
    f.Preorder (f.children id) below ∧
    (∀ other, other ∈ below ↔ f.Below id other) ∧ ∀ other ∈ before ++ after, ¬ f.Below id other
  roots : f.roots.Sublist order
  siblings : ∀ id, (f.children id).Sublist order

theorem Planted.depthFirst (h : f.Planted) : f.DepthFirst f.traversal := by
  have hpre := traversal_preorder h
  have hperm := traversal_perm h
  have hnodup : f.traversal.Nodup := hperm.nodup_iff.2 List.nodup_range
  have hmem : ∀ id < f.size, id ∈ f.traversal :=
    fun id hid => hperm.mem_iff.2 (List.mem_range.2 hid)
  refine ⟨hperm, hpre, fun id hid => ?_, hpre.sublist, fun id => ?_⟩
  · obtain ⟨before, below, after, heq, hblock⟩ := hpre.exists_block (hmem id hid)
    refine ⟨before, below, after, heq, hblock, hblock.mem_children_iff, fun other hother hbelow => ?_⟩
    have hin := (hblock.mem_children_iff other).2 hbelow
    rw [heq] at hnodup
    grind
  · by_cases hid : id < f.size
    · obtain ⟨before, below, after, heq, hblock⟩ := hpre.exists_block (hmem id hid)
      rw [heq]
      exact (hblock.sublist.trans (List.sublist_append_left ..)).trans
        ((List.sublist_cons_self ..).trans (List.sublist_append_right ..))
    · rw [children_eq_nil (Nat.le_of_not_lt hid)]
      exact List.nil_sublist _

end MachinePanel.Forest
