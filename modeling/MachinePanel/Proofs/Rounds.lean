/-
Rounds of updates. Whatever the order in which the elements take their turns,
each of them finds its inputs as they were when the round began. So a turn comes
to what the element makes of these (`Forest.turn`), and if no two elements share
an output, turns may change places (`turn_comm`). `update_consistent` says so of
every forest that has grown from new elements.
-/
import MachinePanel.Proofs.Outcome
import MachinePanel.Proofs.Traversal

namespace MachinePanel.Forest

variable {f f' : Forest} {store : PinStore} {now : Nanos} {id : Nat} {e : Element}

/-- A forest of elements that were made for a tag, after any updates and
whatever a user did to them. -/
inductive Grown : Forest → Prop where
  | empty : Grown {}
  | attach {f f' : Forest} {props : Props} {tag : Tag} {design : Design} {id : Nat} (h : Grown f)
      (hdesign : Design.of props tag = .ok design) (base : String) (now : Nanos)
      (parent : Option Nat) (hadd : f.attach parent (design.element base now) = .ok (id, f')) :
      Grown f'
  | update {f : Forest} {id : Nat} {e : Element} (h : Grown f) (he : f.element? id = some e)
      (now : Nanos) (view : PinView) : Grown (f.setElement id (e.update now view).element)
  | act {f : Forest} {id : Nat} {e e' : Element} {action : UserAction} {times : Nat} (h : Grown f)
      (he : f.element? id = some e) (hact : e.actTimes action times = some (.ok e')) :
      Grown (f.setElement id e')

/-- Updates the elements in an order. -/
def updateIn (f : Forest) (order : List Nat) (store : PinStore) (now : Nanos) : Round :=
  order.foldl (Round.visit now) { forest := f, view := PinView.mk store [] }

/-- What the turn of an element of `f` makes of the elements and of the pins, in a
round that began with `store`. -/
def turn (f : Forest) (store : PinStore) (now : Nanos) (s : Forest × PinStore) (id : Nat) :
    Forest × PinStore :=
  match f.element? id with
  | none => s
  | some e => (s.1.setElement id (e.outcome now store).element,
      s.2.settleAll (e.outcome now store).writes)

/-! ## One turn -/

theorem forall_setElement {P : Element → Prop} {element : Element}
    (h : ∀ id e, f.element? id = some e → P e) (helement : P element) (id : Nat) :
    ∀ i e, (f.setElement id element).element? i = some e → P e := by
  intro i e he
  rw [element?_setElement] at he
  split at he
  · obtain ⟨_, -, rfl⟩ := Option.map_eq_some_iff.1 he
    exact helement
  · exact h i e he

theorem forall_attach {P : Element → Prop} {element : Element} {parent : Option Nat}
    (h : ∀ id e, f.element? id = some e → P e) (helement : P element)
    (hadd : f.attach parent element = .ok (id, f')) : ∀ i e, f'.element? i = some e → P e := by
  intro i e he
  rw [element?_attach hadd] at he
  split at he
  · cases he
    exact helement
  · exact h i e he

theorem Grown.planted (h : f.Grown) : f.Planted := by
  induction h with
  | empty => exact planted_empty
  | attach _ _ base now parent hadd ih => exact ih.attach hadd
  | update _ _ now view ih => exact ih.setElement _ _
  | act _ _ _ ih => exact ih.setElement _ _

theorem Grown.wired (h : f.Grown) : ∀ id e, f.element? id = some e → e.Wired := by
  induction h with
  | empty =>
    intro id e he
    cases he
  | attach _ hdesign base now parent hadd ih =>
    exact forall_attach ih (Element.wired_element hdesign base now) hadd
  | update _ he now view ih =>
    exact forall_setElement ih ((Element.update_sameWiring _ now view).wired (ih _ _ he)) _
  | act _ he hact ih =>
    exact forall_setElement ih ((Element.actTimes_sameWiring hact).wired (ih _ _ he)) _

/-- The turn of an element whose pins are there. -/
structure Turned (store : PinStore) (now : Nanos) (e : Element) (id : Nat) (round round' : Round) :
    Prop where
  forest : round'.forest = round.forest.setElement id (e.outcome now store).element
  pins : round'.view.store = round.view.store.settleAll (e.outcome now store).writes
  tracks : round'.view.Tracks store
  count : round'.count = { round.count with updated := round.count.updated + 1 }
  notes : ∀ note ∈ round'.notes, note ∈ round.notes ∨ ∃ pin value, note = .unknownImage pin value

theorem turned_visit (now : Nanos) {round : Round} (he : round.forest.element? id = some e)
    (hseated : e.Seated store) (hview : round.view.Tracks store) :
    Turned store now e id round (Round.visit now round id) := by
  obtain ⟨view, hupdate, hstore, htracks⟩ := hseated.update now hview
  simp only [Round.visit, he, hupdate]
  refine ⟨rfl, hstore, htracks, rfl, fun note hnote => ?_⟩
  rcases List.mem_append.1 hnote with hnote | hnote
  · exact .inl hnote
  · simp only [Round.notesOn, List.append_nil] at hnote
    split at hnote
    · exact .inr ⟨_, _, List.mem_singleton.1 hnote⟩
    · cases hnote

/-! ## A round -/

/-- What every update of an element preserves is preserved by a round. -/
theorem forest_foldl_visit {P : Forest → Prop}
    (hP : ∀ f id e view, P f → f.element? id = some e →
      P (f.setElement id (e.update now view).element))
    (order : List Nat) {round : Round} (h : P round.forest) :
    P (order.foldl (Round.visit now) round).forest := by
  induction order generalizing round with
  | nil => exact h
  | cons id rest ih =>
    refine ih ?_
    unfold Round.visit
    split
    · exact h
    · next e he => exact hP _ id e _ h he

/-- The elements take their turns on their own, each as it was before the round. -/
structure Rounded (f : Forest) (store : PinStore) (now : Nanos) (order : List Nat)
    (round round' : Round) : Prop where
  turns : (round'.forest, round'.view.store) =
    order.foldl (f.turn store now) (round.forest, round.view.store)
  tracks : round'.view.Tracks store
  count : round'.count = { round.count with updated := round.count.updated + order.length }
  notes : ∀ note ∈ round'.notes, note ∈ round.notes ∨ ∃ pin value, note = .unknownImage pin value

theorem rounded_foldl {order : List Nat} {round : Round} (hnodup : order.Nodup)
    (hsame : ∀ id ∈ order, round.forest.element? id = f.element? id)
    (hthere : ∀ id ∈ order, ∃ e, f.element? id = some e ∧ e.Seated store)
    (hview : round.view.Tracks store) :
    Rounded f store now order round (order.foldl (Round.visit now) round) := by
  induction order generalizing round with
  | nil => exact ⟨rfl, hview, rfl, fun _ h => .inl h⟩
  | cons id rest ih =>
    obtain ⟨hnotin, hnodup⟩ := List.nodup_cons.1 hnodup
    obtain ⟨e, he, hseated⟩ := hthere id (by simp)
    have hturned := turned_visit now ((hsame id (by simp)).trans he) hseated hview
    -- An element has one turn, so that those to come are as they were.
    have hsame' : ∀ i ∈ rest, (Round.visit now round id).forest.element? i = f.element? i := by
      intro i hi
      have hne : i ≠ id := fun heq => hnotin (heq ▸ hi)
      rw [hturned.forest, element?_setElement, if_neg hne]
      exact hsame i (by simp [hi])
    have hrest := ih hnodup hsame' (fun i hi => hthere i (by simp [hi])) hturned.tracks
    refine ⟨?_, hrest.tracks, ?_, fun note hnote => ?_⟩
    · have hturn : f.turn store now (round.forest, round.view.store) id =
          ((Round.visit now round id).forest, (Round.visit now round id).view.store) := by
        rw [hturned.forest, hturned.pins]
        simp only [turn, he]
      rw [List.foldl_cons, List.foldl_cons, hturn]
      exact hrest.turns
    · rw [List.foldl_cons, hrest.count, hturned.count, List.length_cons, Nat.add_assoc,
        Nat.add_comm 1]
    · rcases hrest.notes note hnote with h | h
      · exact hturned.notes note h
      · exact .inr h

theorem valid_of_perm {order : List Nat} (h : f.Planted) (horder : order.Perm f.traversal) :
    order.Nodup ∧ ∀ id ∈ order, id < f.size := by
  have hrange := horder.trans (traversal_perm h)
  exact ⟨hrange.nodup_iff.2 List.nodup_range, fun id hid => List.mem_range.1 (hrange.mem_iff.1 hid)⟩

/-- Elements whose pins are there may take their turns in any order. -/
theorem rounded_updateIn (now : Nanos) {order : List Nat} (hnodup : order.Nodup)
    (hlt : ∀ id ∈ order, id < f.size)
    (hseated : ∀ id e, f.element? id = some e → e.Seated store) :
    Rounded f store now order ⟨f, ⟨store, []⟩, {}, []⟩ (f.updateIn order store now) := by
  refine rounded_foldl hnodup (fun _ _ => rfl) (fun id hid => ?_) (PinView.tracks_start store)
  obtain ⟨e, he⟩ := exists_element (hlt id hid)
  exact ⟨e, he, hseated id e he⟩

theorem setElement_comm {i j : Nat} (hne : i ≠ j) (e e' : Element) (f : Forest) :
    (f.setElement i e).setElement j e' = (f.setElement j e').setElement i e := by
  simp only [setElement, Forest.mk.injEq, and_true]
  refine List.ext_getElem? fun k => ?_
  simp only [List.getElem?_modify]
  cases f.nodes[k]? with
  | none => rfl
  | some node =>
    by_cases hi : i = k
    · subst hi
      simp [Ne.symm hne]
    · simp [hi]

/-- No two elements have an output of one name. -/
def OutputsApart (f : Forest) : Prop :=
  ∀ i j e e', i ≠ j → f.element? i = some e → f.element? j = some e' →
    ∀ pin ∈ e.pins, ∀ pin' ∈ e'.pins, pin.direction = .output → pin'.direction = .output →
      pin.name ≠ pin'.name

/-- **Turns may change places**, if no two elements share an output. -/
theorem turn_comm (hapart : f.OutputsApart)
    (hwired : ∀ id e, f.element? id = some e → e.Wired) (i j : Nat) (s : Forest × PinStore) :
    f.turn store now (f.turn store now s i) j = f.turn store now (f.turn store now s j) i := by
  by_cases hij : i = j
  · rw [hij]
  unfold turn
  cases hi : f.element? i with
  | none => rfl
  | some e =>
    cases hj : f.element? j with
    | none => rfl
    | some e' =>
      have hwrites : ∀ {k e}, f.element? k = some e → ∀ w ∈ (e.outcome now store).writes,
          w.1 ∈ e.pins ∧ w.1.direction = .output := by
        intro k e hk w hw
        have hout := e.outputs_of_mem_writes now store w hw
        obtain ⟨signal, hsignal, hfst⟩ := List.mem_map.1 hout
        refine ⟨Element.mem_pins.2 (.inr hout), ?_⟩
        rw [← hfst]
        exact ((hwired k e hk).signals signal hsignal).1
      simp only
      rw [setElement_comm hij, PinStore.settleAll_comm]
      intro w hw w' hw'
      obtain ⟨hpin, hdirection⟩ := hwrites hi w hw
      obtain ⟨hpin', hdirection'⟩ := hwrites hj w' hw'
      exact hapart i j e e' hij hi hj _ hpin _ hpin' hdirection hdirection'

theorem element?_updateIn {order : List Nat} (hid : id ∉ order) (f : Forest) (store : PinStore)
    (now : Nanos) : (f.updateIn order store now).forest.element? id = f.element? id := by
  suffices h : ∀ round : Round,
      (order.foldl (Round.visit now) round).forest.element? id = round.forest.element? id from h _
  induction order with
  | nil => exact fun _ => rfl
  | cons i rest ih =>
    intro round
    rw [List.mem_cons, not_or] at hid
    rw [List.foldl_cons, ih hid.2]
    unfold Round.visit
    split
    · rfl
    · rw [element?_setElement, if_neg hid.1]

theorem tracks_updateIn (f : Forest) (order : List Nat) (store : PinStore) (now : Nanos) :
    (f.updateIn order store now).view.Tracks store := by
  have hround : ∀ round : Round, round.view.Tracks store →
      (order.foldl (Round.visit now) round).view.Tracks store := by
    induction order with
    | nil => exact fun _ h => h
    | cons id rest ih =>
      refine fun round h => ih _ ?_
      unfold Round.visit
      split
      · exact h
      · rw [Element.update_eq_run]
        exact PinProgram.tracks_run _ h
  exact hround _ (PinView.tracks_start store)

/-- **In a round every element finds its inputs as they were when it began**, and as
long as no two elements share an output, the order of their turns makes no
difference to the pins, to the elements and to how many of them fail. -/
theorem update_consistent (f : Forest) (store : PinStore) (now : Nanos) (hgrown : f.Grown)
    (hfits : ∀ id e, f.element? id = some e → ∀ pin ∈ e.pins, store.Fits pin) :
    (∀ order before id after, order.Perm f.traversal → order = before ++ id :: after →
      let round := f.updateIn before store now
      ∀ e, round.forest.element? id = some e →
        e.update now round.view = (e.program now).run round.view ∧
        ∀ r ∈ (e.program now).reads round.view,
          ∃ slot, store.slot? r.1.name = some slot ∧ r.2 = .ok slot.value) ∧
    (f.OutputsApart → ∀ order, order.Perm f.traversal →
      let round := f.update store now
      let round' := f.updateIn order store now
      round'.view.store = round.view.store ∧ round'.forest = round.forest ∧
        round'.count = round.count) := by
  have hseated : ∀ id e, f.element? id = some e → e.Seated store :=
    fun id e he => ⟨hgrown.wired id e he, hfits id e he⟩
  have hplanted := hgrown.planted
  refine ⟨?_, ?_⟩
  · rintro order before id after horder rfl round e he
    obtain ⟨hnodup, hlt⟩ := valid_of_perm hplanted horder
    obtain ⟨hbefore, -, hapart⟩ := List.nodup_append.1 hnodup
    have hid : id ∉ before := fun hmem => hapart id hmem id (by simp) rfl
    rw [element?_updateIn hid] at he
    have h := hseated id e he
    have hround := rounded_updateIn now hbefore (fun i hi => hlt i (by simp [hi])) hseated
    have hreads := (PinProgram.run_eq_eval (e.program_obeys now) h.inputs h.signals hround.tracks).2
    exact ⟨e.update_eq_run now _, hreads⟩
  · intro hapart order horder
    obtain ⟨hnodup, hlt⟩ := valid_of_perm hplanted (.refl f.traversal)
    obtain ⟨hnodup', hlt'⟩ := valid_of_perm hplanted horder
    have hround := rounded_updateIn now hnodup hlt hseated
    have hround' := rounded_updateIn now hnodup' hlt' hseated
    have hturns := hround'.turns
    rw [horder.foldl_eq' (fun i _ j _ s => turn_comm hapart hgrown.wired i j s)] at hturns
    have hsame := hturns.trans hround.turns.symm
    rw [Prod.mk.injEq] at hsame
    refine ⟨hsame.2, hsame.1, ?_⟩
    rw [hround'.count, horder.length_eq]
    exact hround.count.symm

/-- A lamp, and a button that is held. -/
def heldPanel : Forest where
  nodes := [⟨.lamp (.new .round "run" {}), []⟩, ⟨.button (Button.new "stop" {}).press, []⟩]
  roots := [0, 1]

/-- Their pins. -/
def heldStore : PinStore where
  slots := [("run", ⟨.input, .bit true⟩), ("stop", ⟨.output, .bit false⟩)]

theorem heldPanel_grown : heldPanel.Grown := by
  have hlamp : Grown ⟨[⟨.lamp (.new .round "run" {}), []⟩], [0]⟩ :=
    .attach .empty (show Design.of {} .led = .ok _ from rfl) "run" 0 none rfl
  have hbutton : Grown ⟨[⟨.lamp (.new .round "run" {}), []⟩, ⟨.button (.new "stop" {}), []⟩],
      [0, 1]⟩ :=
    .attach hlamp (show Design.of {} .button = .ok _ from rfl) "stop" 0 none rfl
  have hpress : (Element.button (.new "stop" {})).actTimes .press 1 =
      some (.ok (.button (Button.new "stop" {}).press)) := rfl
  exact .act hbutton (show element? _ 1 = some _ from rfl) hpress

theorem heldPanel_cases (he : heldPanel.element? id = some e) :
    (id = 0 ∧ e.pins = [⟨"run", .input, .bit⟩]) ∨
      (id = 1 ∧ e.pins = [⟨"stop", .output, .bit⟩]) := by
  match id with
  | 0 =>
    cases he
    exact .inl ⟨rfl, rfl⟩
  | 1 =>
    cases he
    exact .inr ⟨rfl, rfl⟩
  | id + 2 => cases he

theorem update_consistent_heldPanel :
    heldPanel.Grown ∧
      (∀ id e, heldPanel.element? id = some e → ∀ pin ∈ e.pins, heldStore.Fits pin) ∧
      heldPanel.OutputsApart ∧ [1, 0].Perm heldPanel.traversal ∧
      (heldPanel.updateIn [1, 0] heldStore 0).forest = (heldPanel.update heldStore 0).forest ∧
      (heldPanel.updateIn [1, 0] heldStore 0).view.store =
        (heldPanel.update heldStore 0).view.store ∧
      (heldPanel.update heldStore 0).view.store.read "stop" = .ok (.bit true) := by
  have hfits : ∀ id e, heldPanel.element? id = some e → ∀ pin ∈ e.pins, heldStore.Fits pin := by
    intro id e he pin hpin
    rcases heldPanel_cases he with ⟨-, hpins⟩ | ⟨-, hpins⟩
    all_goals
      rw [hpins, List.mem_singleton] at hpin
      subst hpin
      exact ⟨_, rfl, rfl, rfl⟩
  have hapart : heldPanel.OutputsApart := by
    intro i j e e' hij hi hj pin hpin pin' hpin' hdirection hdirection'
    rcases heldPanel_cases hi with ⟨-, hpins⟩ | ⟨rfl, -⟩
    · rw [hpins, List.mem_singleton] at hpin
      subst hpin
      cases hdirection
    · rcases heldPanel_cases hj with ⟨-, hpins'⟩ | ⟨rfl, -⟩
      · rw [hpins', List.mem_singleton] at hpin'
        subst hpin'
        cases hdirection'
      · exact absurd rfl hij
  have horder : [1, 0].Perm heldPanel.traversal := by decide
  obtain ⟨-, hany⟩ := update_consistent heldPanel heldStore 0 heldPanel_grown hfits
  obtain ⟨hstore, hforest, -⟩ := hany hapart [1, 0] horder
  have hstop : (heldPanel.update heldStore 0).view.store.read "stop" = .ok (.bit true) := by
    rfl
  exact ⟨heldPanel_grown, hfits, hapart, horder, hforest, hstore, hstop⟩

end MachinePanel.Forest
