/-
The calls of a round. An update calls each element of the traversal in turn, and goes on
whatever becomes of a call. That is so whatever elements do when they are updated, so here
they may do anything (`updateWith`); the update of a panel is the case where they do what
elements do (`update_eq_updateWith`).

No element is called twice, so each is found as it was before the round, and is left as its
one call leaves it (`conducted_foldl`). `grow_depthFirst` puts this together with what
traversals are like, for every forest that additions can make.
-/
import MachinePanel.Proofs.Growth
import MachinePanel.Proofs.Preorder

namespace MachinePanel.Forest

/-- What becomes of an element that is called with a view. -/
abbrev Behaviour := Nat → PinView → Element → Refresh Element

/-- A call of an element, which is found in some state, with a view. -/
structure Call where
  id : Nat
  element : Element
  view : PinView

/-- What becomes of the call. -/
def Call.result (behave : Behaviour) (c : Call) : Refresh Element :=
  behave c.id c.view c.element

/-- Takes what has become of an element over. -/
def Round.take (round : Round) (id : Nat) (r : Refresh Element) : Round where
  forest := round.forest.setElement id r.element
  view := r.view
  count :=
    if r.error.isNone then { round.count with updated := round.count.updated + 1 }
    else { round.count with failed := round.count.failed + 1 }
  notes := round.notes ++ Round.notesOn id r

/-- Calls one element. -/
def Round.visitWith (behave : Behaviour) (round : Round) (id : Nat) : Round :=
  match round.forest.element? id with
  | none => round
  | some element => round.take id (behave id round.view element)

/-- Calls all elements in the order of the traversal. -/
def updateWith (f : Forest) (behave : Behaviour) (store : PinStore) : Round :=
  f.traversal.foldl (Round.visitWith behave) { forest := f, view := PinView.mk store [] }

theorem update_eq_updateWith (f : Forest) (store : PinStore) (now : Nanos) :
    f.update store now = f.updateWith (fun _ view e => e.update now view) store :=
  rfl

/-- The round has gone on with these calls and no others. Each one gets the view that the one
before has left. -/
structure Conducted (behave : Behaviour) (round : Round) (calls : List Call) (round' : Round) :
    Prop where
  found : ∀ c ∈ calls, round.forest.element? c.id = some c.element
  left : ∀ c ∈ calls, round'.forest.element? c.id = some (c.result behave).element
  others : ∀ id ∉ calls.map Call.id, round'.forest.element? id = round.forest.element? id
  links : round'.forest.links = round.forest.links
  views : round.view :: calls.map (fun c => (c.result behave).view) =
    calls.map Call.view ++ [round'.view]
  updated : round'.count.updated =
    round.count.updated + calls.countP fun c => (c.result behave).error.isNone
  failed : round'.count.failed =
    round.count.failed + calls.countP fun c => (c.result behave).error.isSome

variable {behave : Behaviour} {f : Forest} {round : Round} {id : Nat} {e : Element}

theorem links_setElement (f : Forest) (id : Nat) (e : Element) :
    (f.setElement id e).links = f.links := by
  funext p
  cases p with
  | none => rfl
  | some p => exact congrFun (children_setElement f id e) p

theorem count_take (round : Round) (id : Nat) (r : Refresh Element) :
    (round.take id r).count.updated = round.count.updated + (if r.error.isNone then 1 else 0) ∧
      (round.take id r).count.failed = round.count.failed + (if r.error.isSome then 1 else 0) := by
  cases h : r.error <;> simp [Round.take, h]

/-- **Elements that are visited once each are called once each**, whatever they do. -/
theorem conducted_foldl {order : List Nat} (hnodup : order.Nodup)
    (hthere : ∀ id ∈ order, ∃ e, round.forest.element? id = some e) :
    ∃ calls, calls.map Call.id = order ∧
      Conducted behave round calls (order.foldl (Round.visitWith behave) round) := by
  induction order generalizing round with
  | nil => exact ⟨[], rfl, by simp, by simp, fun _ _ => rfl, rfl, rfl, rfl, rfl⟩
  | cons id rest ih =>
    obtain ⟨hnotin, hnodup⟩ := List.nodup_cons.1 hnodup
    obtain ⟨e, he⟩ := hthere id (by simp)
    let first : Call := ⟨id, e, round.view⟩
    let next := round.take id (first.result behave)
    have hvisit : round.visitWith behave id = next := by simp only [Round.visitWith, he]; rfl
    have hother : ∀ i, i ≠ id → next.forest.element? i = round.forest.element? i := by
      intro i hne
      rw [show next.forest = round.forest.setElement id _ from rfl, element?_setElement,
        if_neg hne]
    have hself : next.forest.element? id = some (first.result behave).element := by
      rw [show next.forest = round.forest.setElement id _ from rfl, element?_setElement,
        if_pos rfl, he]
      rfl
    have hthere' : ∀ i ∈ rest, ∃ e, next.forest.element? i = some e := by
      intro i hi
      rw [hother i fun heq => hnotin (heq ▸ hi)]
      exact hthere i (by simp [hi])
    obtain ⟨calls, hids, h⟩ := ih hnodup hthere'
    obtain ⟨hupdated, hfailed⟩ := count_take round id (first.result behave)
    refine ⟨first :: calls, by rw [List.map_cons, hids], ?_⟩
    rw [List.foldl_cons, hvisit]
    refine ⟨fun c hc => ?_, fun c hc => ?_, fun i hi => ?_, ?_, ?_, ?_, ?_⟩
    · rcases List.mem_cons.1 hc with rfl | hc
      · exact he
      · have hne : c.id ≠ id := fun heq => hnotin (heq ▸ hids ▸ List.mem_map_of_mem hc)
        rw [← hother c.id hne]
        exact h.found c hc
    · rcases List.mem_cons.1 hc with rfl | hc
      · rw [h.others id (hids ▸ hnotin)]
        exact hself
      · exact h.left c hc
    · rw [List.map_cons, List.mem_cons, not_or] at hi
      rw [h.others i hi.2]
      exact hother i hi.1
    · exact h.links.trans (links_setElement ..)
    · rw [List.map_cons, List.map_cons, List.cons_append, ← h.views]
      rfl
    · rw [h.updated, show next.count.updated = _ from hupdated, List.countP_cons]
      omega
    · rw [h.failed, show next.count.failed = _ from hfailed, List.countP_cons]
      omega

/-- An update calls every element once, in the order of the traversal. -/
theorem conducted_updateWith (h : f.Planted) (behave : Behaviour) (store : PinStore) :
    let round := f.updateWith behave store
    (∃ calls, calls.map Call.id = f.traversal ∧
      Conducted behave ⟨f, ⟨store, []⟩, {}, []⟩ calls round) ∧
    round.count.updated + round.count.failed = f.size := by
  intro round
  have hperm := traversal_perm h
  have hround : ∃ calls, calls.map Call.id = f.traversal ∧
      Conducted behave ⟨f, ⟨store, []⟩, {}, []⟩ calls round :=
    conducted_foldl (hperm.nodup_iff.2 List.nodup_range) fun id hid =>
      exists_element (List.mem_range.1 (hperm.mem_iff.1 hid))
  refine ⟨hround, ?_⟩
  obtain ⟨calls, hids, hcalls⟩ := hround
  have hlength : calls.length = f.size := by
    rw [← List.length_map Call.id, hids, hperm.length_eq, List.length_range]
  have hcount : calls.length = calls.countP (fun c => (c.result behave).error.isNone) +
      calls.countP fun c => (c.result behave).error.isSome := by
    rw [List.length_eq_countP_add_countP fun c => (c.result behave).error.isNone]
    exact congrArg _ (List.countP_congr (by simp [Option.isSome_iff_ne_none]))
  rw [hcalls.updated, hcalls.failed, ← hlength, hcount, Nat.zero_add, Nat.zero_add]

variable {L μ : Type}

/-- **However a forest has grown, the walk through it comes to its end, and the order is depth
first**: every element comes once, it is followed at once by all that is below it, and roots
and siblings are in the order in which they were added, where an addition that fails, for want
of the parent or of the element, has changed nothing. An update calls every element once in
this order, whatever fails, and all calls are counted. -/
theorem grow_depthFirst (additions : List (Addition L μ)) :
    let f := grow {} additions
    let added := added {} additions
    (∀ addition : Addition L μ, f.Answers addition.parent? addition.made (f.perform addition)) ∧
    (∀ (addition : Addition L μ) (e : PanelError),
      (f.perform addition).1 = .error e → (f.perform addition).2 = f) ∧
    added.map Prod.snd = List.range f.size ∧
    (∀ p, f.links p = (added.filter (·.1 = p)).map Prod.snd) ∧
    (∀ order, f.Unwinds f.roots order ↔ order = f.traversal) ∧
    f.DepthFirst f.traversal ∧
    (∀ (behave : Behaviour) (store : PinStore),
      let round := f.updateWith behave store
      (∃ calls, calls.map Call.id = f.traversal ∧
        Conducted behave ⟨f, ⟨store, []⟩, {}, []⟩ calls round) ∧
      round.count.updated + round.count.failed = f.size) ∧
    ∀ store now, f.update store now = f.updateWith (fun _ view e => e.update now view) store := by
  intro f added
  have hplanted : f.Planted := planted_grow planted_empty additions
  have hunwinds : f.Unwinds f.roots f.traversal := (traversal_preorder hplanted).unwinds
  obtain ⟨hnumbers, hsize, hlinks⟩ := links_grow {} additions
  have hsize' : f.size = added.length := hsize.trans (Nat.zero_add _)
  refine ⟨f.answers_perform, fun addition e herror => ?_, ?_, fun p => ?_, fun order => ?_,
    hplanted.depthFirst, conducted_updateWith hplanted, update_eq_updateWith f⟩
  · have hanswers := f.answers_perform addition
    generalize f.perform addition = answer at hanswers herror
    cases hanswers with
    | noParent | notMade => rfl
    | attached _ _ => cases herror
  · rw [hsize', List.range_eq_range']
    exact hnumbers
  · rw [hlinks p]
    cases p <;> rfl
  · refine ⟨fun h => h.eq hunwinds, ?_⟩
    rintro rfl
    exact hunwinds

end MachinePanel.Forest
