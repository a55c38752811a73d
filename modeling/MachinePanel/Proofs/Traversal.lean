/-
The traversal of a forest. However a forest has grown, every element of it is a
root or the child of exactly one parent, which was there before it (`Planted`).
Whenever the walk takes a number off its stack, the links that lead to the
numbers still to come are those on the stack and those from numbers still to
come, each exactly once; so it comes through all numbers, and through none twice
(`traversal_perm`).
-/
import MachinePanel.Forest
import Mathlib.Data.List.Perm.Basic

namespace MachinePanel.Forest

variable {f f' : Forest} {element : Element} {id : Nat}

/-- Every element is a root, or the child of one parent that was there before it. -/
structure Planted (f : Forest) : Prop where
  links : (f.roots ++ (List.range f.size).flatMap f.children).Perm (List.range f.size)
  upward : ∀ parent, ∀ child ∈ f.children parent, parent < child

/-! ## The walk -/

theorem eq_nil_of_flatMap_perm {rest : List Nat}
    (hup : ∀ parent, ∀ child ∈ f.children parent, parent < child)
    (h : (rest.flatMap f.children).Perm rest) : rest = [] := by
  refine List.eq_nil_iff_forall_not_mem.2 fun id => ?_
  induction id using Nat.strongRecOn with
  | ind id ih =>
    intro hid
    obtain ⟨parent, hparent, hchild⟩ := List.mem_flatMap.1 (h.mem_iff.2 hid)
    exact ih parent (hup parent id hchild) hparent

/-- A walk comes through exactly the numbers still to come, if the links that
lead to them are on the stack or come from among them. -/
theorem walk_perm (hup : ∀ parent, ∀ child ∈ f.children parent, parent < child) {fuel : Nat}
    {stack rest : List Nat} (hfuel : rest.length ≤ fuel)
    (h : (stack ++ rest.flatMap f.children).Perm rest) : (f.walk fuel stack).Perm rest := by
  induction fuel generalizing stack rest with
  | zero =>
    rw [List.length_eq_zero_iff.1 (Nat.le_zero.1 hfuel)]
    exact .refl _
  | succ fuel ih =>
    cases stack with
    | nil =>
      rw [eq_nil_of_flatMap_perm hup h]
      exact .refl _
    | cons id stack =>
      have hid : id ∈ rest := h.mem_iff.1 (by simp)
      have hrest : rest.Perm (id :: rest.erase id) := List.perm_cons_erase hid
      have hlinks : (f.children id ++ stack ++ (rest.erase id).flatMap f.children).Perm
          (rest.erase id) := by
        have hfront : (f.children id ++ stack ++ (rest.erase id).flatMap f.children).Perm
            (stack ++ (f.children id ++ (rest.erase id).flatMap f.children)) := by
          rw [List.append_assoc]
          exact List.perm_append_comm_assoc ..
        have hback : (stack ++ (f.children id ++ (rest.erase id).flatMap f.children)).Perm
            (stack ++ rest.flatMap f.children) :=
          (hrest.flatMap_right f.children).symm.append_left stack
        exact (((hfront.trans hback).cons id).trans (h.trans hrest)).cons_inv
      have hlength : (rest.erase id).length ≤ fuel := by
        rw [List.length_erase_of_mem hid]
        omega
      exact ((ih hlength hlinks).cons id).trans hrest.symm

/-- **The traversal visits every element exactly once.** -/
theorem traversal_perm (h : f.Planted) : f.traversal.Perm (List.range f.size) :=
  walk_perm h.upward (by simp) h.links

theorem exists_element (h : id < f.size) : ∃ e, f.element? id = some e := by
  simp [element?, List.getElem?_eq_getElem (show id < f.nodes.length from h)]

/-! ## Growth -/

theorem planted_empty : ({} : Forest).Planted where
  links := .refl _
  upward := by simp [children]

theorem children_setElement (f : Forest) (id : Nat) (element : Element) :
    (f.setElement id element).children = f.children := by
  funext i
  simp only [children, setElement, List.getElem?_modify]
  cases f.nodes[i]? <;> simp
  split <;> rfl

@[simp] theorem size_setElement (f : Forest) (id : Nat) (element : Element) :
    (f.setElement id element).size = f.size := by
  simp [size, setElement]

theorem Planted.setElement (h : f.Planted) (id : Nat) (element : Element) :
    (f.setElement id element).Planted where
  links := by
    rw [children_setElement, size_setElement]
    exact h.links
  upward := by
    rw [children_setElement]
    exact h.upward

theorem element?_setElement (f : Forest) (id : Nat) (element : Element) (i : Nat) :
    (f.setElement id element).element? i =
      if i = id then (f.element? i).map fun _ => element else f.element? i := by
  simp only [element?, setElement, List.getElem?_modify]
  by_cases hi : i = id
  · cases f.nodes[i]? <;> simp [hi]
  · cases f.nodes[i]? <;> simp [hi, Ne.symm hi]

theorem children_eq_nil {f : Forest} {i : Nat} (h : f.size ≤ i) : f.children i = [] := by
  rw [children, List.getElem?_eq_none h]

theorem children_addRoot (f : Forest) (element : Element) :
    (f.addRoot element).2.children = f.children := by
  funext i
  rcases Nat.lt_trichotomy i f.size with hlt | rfl | hgt
  · simp only [children, addRoot, List.getElem?_append_left hlt]
  · rw [children_eq_nil (Nat.le_refl _)]
    simp [children, addRoot, size]
  · rw [children_eq_nil (Nat.le_of_lt hgt), children_eq_nil]
    simp only [size, addRoot, List.length_append, List.length_singleton] at hgt ⊢
    omega

/-- One more element, to which one more link leads. -/
theorem Planted.grow (h : f.Planted) (hsize : f'.size = f.size + 1)
    (hlinks : (f'.roots ++ (List.range f.size).flatMap f'.children).Perm
      (f.roots ++ (List.range f.size).flatMap f.children ++ [f.size]))
    (hnew : f'.children f.size = [])
    (hup : ∀ parent, ∀ child ∈ f'.children parent, parent < child) : f'.Planted where
  links := by
    rw [hsize, List.range_succ, List.flatMap_append, List.flatMap_singleton, hnew, List.append_nil]
    exact hlinks.trans (h.links.append_right [f.size])
  upward := hup

theorem Planted.addRoot (h : f.Planted) (element : Element) : (f.addRoot element).2.Planted := by
  refine h.grow (by simp [size, Forest.addRoot]) ?_ ?_ ?_
  · rw [children_addRoot]
    have hroots : (f.addRoot element).2.roots = f.roots ++ [f.size] := rfl
    rw [hroots, List.append_assoc, List.append_assoc]
    exact List.perm_append_comm.append_left f.roots
  · rw [children_addRoot]
    exact children_eq_nil (Nat.le_refl _)
  · rw [children_addRoot]
    exact h.upward

theorem children_addChild {parent : Nat} (h : f.addChild parent element = .ok (id, f')) (i : Nat) :
    f'.children i = if i = parent then f.children i ++ [f.size] else f.children i := by
  unfold addChild at h
  split at h
  · next hlt =>
    cases h
    rcases Nat.lt_trichotomy i f.size with hi | rfl | hi
    · simp only [children]
      rw [List.getElem?_append_left (by simpa [size] using hi), List.getElem?_modify]
      have hget : f.nodes[i]? = some f.nodes[i] := List.getElem?_eq_getElem hi
      rw [hget]
      by_cases hp : parent = i
      · simp [hp]
      · simp [hp, Ne.symm hp]
    · have hne : f.size ≠ parent := Nat.ne_of_gt hlt
      rw [if_neg hne, children_eq_nil (Nat.le_refl _)]
      simp [children, size]
    · have hne : i ≠ parent := by omega
      rw [if_neg hne, children_eq_nil (Nat.le_of_lt hi), children_eq_nil]
      simp only [size, List.length_append, List.length_modify, List.length_singleton] at hi ⊢
      omega
  · cases h

theorem Planted.addChild (h : f.Planted) {parent : Nat}
    (hadd : f.addChild parent element = .ok (id, f')) : f'.Planted := by
  have hchildren := children_addChild hadd
  have hlt : parent < f.size := by
    unfold Forest.addChild at hadd
    split at hadd
    · assumption
    · cases hadd
  have hroots : f'.roots = f.roots ∧ f'.size = f.size + 1 := by
    simp only [Forest.addChild, if_pos hlt, Except.ok.injEq, Prod.mk.injEq] at hadd
    obtain ⟨-, rfl⟩ := hadd
    simp [size]
  refine h.grow hroots.2 ?_ ?_ ?_
  · have hperm : (List.range f.size).Perm (parent :: (List.range f.size).erase parent) :=
      List.perm_cons_erase (List.mem_range.2 hlt)
    have hothers : ((List.range f.size).erase parent).flatMap f'.children =
        ((List.range f.size).erase parent).flatMap f.children := by
      refine List.flatMap_congr fun i hi => ?_
      have hne : i ≠ parent := (List.nodup_range.mem_erase_iff.1 hi).1
      rw [hchildren, if_neg hne]
    have hlinks : ((List.range f.size).flatMap f'.children).Perm
        ((List.range f.size).flatMap f.children ++ [f.size]) := by
      refine (hperm.flatMap_right _).trans (.trans ?_ ((hperm.flatMap_right _).symm.append_right _))
      rw [List.flatMap_cons, List.flatMap_cons, hothers, hchildren, if_pos rfl, List.append_assoc,
        List.append_assoc]
      exact List.perm_append_comm.append_left (f.children parent)
    rw [hroots.1, List.append_assoc]
    exact hlinks.append_left f.roots
  · rw [hchildren, if_neg (Nat.ne_of_gt hlt)]
    exact children_eq_nil (Nat.le_refl _)
  · intro i child hchild
    rw [hchildren] at hchild
    split at hchild
    · next hi =>
      rcases List.mem_append.1 hchild with hmem | hmem
      · exact h.upward i child hmem
      · rw [List.mem_singleton.1 hmem, hi]
        exact hlt
    · exact h.upward i child hchild

theorem Planted.attach (h : f.Planted) {parent : Option Nat}
    (hadd : f.attach parent element = .ok (id, f')) : f'.Planted := by
  cases parent with
  | none =>
    cases hadd
    exact h.addRoot element
  | some parent => exact h.addChild hadd

theorem element_concat (nodes : List Node) (node : Node) (i : Nat) :
    ((nodes ++ [node])[i]?).map (·.element) =
      if i = nodes.length then some node.element else nodes[i]?.map (·.element) := by
  rcases Nat.lt_trichotomy i nodes.length with hi | rfl | hi
  · rw [List.getElem?_append_left hi, if_neg (Nat.ne_of_lt hi)]
  · simp
  · rw [if_neg (Nat.ne_of_gt hi), List.getElem?_eq_none (by simp; omega),
      List.getElem?_eq_none (Nat.le_of_lt hi)]

/-- An attached element comes after all others, which stay as they are. -/
theorem element?_attach {parent : Option Nat} (hadd : f.attach parent element = .ok (id, f'))
    (i : Nat) : f'.element? i = if i = f.size then some element else f.element? i := by
  cases parent with
  | none =>
    cases hadd
    exact element_concat f.nodes _ i
  | some parent =>
    simp only [attach, addChild] at hadd
    split at hadd
    · cases hadd
      simp only [element?, element_concat, List.length_modify, List.getElem?_modify]
      refine if_congr Iff.rfl rfl ?_
      cases f.nodes[i]? <;> simp
      split <;> rfl
    · cases hadd

end MachinePanel.Forest
