/-
What the events between two snapshots report, and in which order. Each aspect of the
machine has a segment of the events, and the segments come in a fixed order
(`changes_eq_segments`). A segment is empty exactly if there is nothing to report
on its aspect (`segment_eq_nil_iff`): mode and interpreter are reported when they
have changed or the machine has just been powered on, and everything else when it
has changed. The mask has no segment, so that a change of it alone goes unreported.

The homing policy shows in the verdict at the end of the last segment alone
(`changes_verdict`). `changes_exact` puts this together.
-/
import MachinePanel.Proofs.Changes
import MachinePanel.Proofs.Homing

namespace MachinePanel

open StatusEvent (ofRunState ofMode ofInterpState)

namespace Aspect

/-- The aspects that updates report, in the order in which they do. -/
def reported : List Aspect :=
  [.runState, .mode, .interp, .file, .line, .tool, .homing]

/-- The place of an aspect in this order. -/
def place (a : Aspect) : Nat :=
  reported.idxOf a

theorem mem_reported {a : Aspect} : a ∈ reported ↔ a ≠ .display := by
  cases a <;> decide

end Aspect

/-- The events are on aspects that updates report, and come in their order. -/
structure InOrder (events : List StatusEvent) : Prop where
  sorted : events.Pairwise fun e e' => e.aspect.place ≤ e'.aspect.place
  reported : ∀ e ∈ events, e.aspect ∈ Aspect.reported

namespace Changes

variable {previous : Option Snapshot} {a b s : Snapshot} {policy : HomingPolicy} {x : Aspect}

/-! ## Segments -/

/-- The segment of the events that is on an aspect. -/
def segment (previous : Option Snapshot) (s : Snapshot) (policy : HomingPolicy) :
    Aspect → List StatusEvent
  | .runState => runState previous s
  | .mode => mode previous s
  | .interp => interp previous s
  | .file => file previous s
  | .line => line previous s
  | .tool => tool previous s
  | .homing => homing previous s policy
  | .display => []

theorem changes_eq_segments (previous : Option Snapshot) (s : Snapshot) (policy : HomingPolicy) :
    changes previous s policy =
      bootstrap previous s ++ Aspect.reported.flatMap (segment previous s policy) := by
  simp only [changes, Aspect.reported, List.flatMap_cons, List.flatMap_nil, List.append_nil,
    List.append_assoc, segment]

theorem aspect_of_mem_segment {e : StatusEvent} (h : e ∈ segment previous s policy x) :
    e.aspect = x := by
  cases x with
  | runState => exact aspect_of_mem_runState h
  | mode => exact aspect_of_mem_mode h
  | interp => exact aspect_of_mem_interp h
  | file => exact aspect_of_mem_file h
  | line => exact aspect_of_mem_line h
  | tool => exact aspect_of_mem_tool h
  | homing => exact aspect_of_mem_homing h
  | display => cases h

/-- **The events come in the order of their aspects**, but for the opening. -/
theorem inOrder_segments (previous : Option Snapshot) (s : Snapshot) (policy : HomingPolicy) :
    InOrder (Aspect.reported.flatMap (segment previous s policy)) := by
  have hplaces : Aspect.reported.Pairwise fun x y => x.place ≤ y.place := by decide
  refine ⟨List.pairwise_flatMap.2 ⟨fun x _ => ?_, hplaces.imp fun hxy e he e' he' => ?_⟩,
    fun e he => ?_⟩
  · refine List.pairwise_of_forall_mem_list fun e he e' he' => ?_
    have hsame : e.aspect = e'.aspect :=
      (aspect_of_mem_segment he).trans (aspect_of_mem_segment he').symm
    exact Nat.le_of_eq (congrArg Aspect.place hsame)
  · rwa [aspect_of_mem_segment he, aspect_of_mem_segment he']
  · obtain ⟨x, hx, hmem⟩ := List.mem_flatMap.1 he
    rwa [aspect_of_mem_segment hmem]

/-! ## What there is to report -/

/-- There is something to report on an aspect: it has changed, or else it is the mode or
the interpreter and the machine has just been powered on. -/
def Due (a b : Snapshot) : Aspect → Prop
  | .runState => a.runState ≠ b.runState
  | .mode => a.mode ≠ b.mode ∨ a.runState ≠ .on ∧ b.runState = .on
  | .interp => a.interpState ≠ b.interpState ∨ a.runState ≠ .on ∧ b.runState = .on
  | .file => a.loadedFile ≠ b.loadedFile
  | .line => a.currentLine ≠ b.currentLine
  | .tool => a.activeTool ≠ b.activeTool
  | .homing => a.homed ≠ b.homed
  | .display => False

theorem map_eq_iff {α : Type} (get : Snapshot → α) :
    (some a).map get = some (get b) ↔ get a = get b := by
  rw [Option.map_some, Option.some_inj]

/-- A report that is made unless a condition holds. -/
theorem ite_eq_nil_iff {condition : Prop} [Decidable condition] {report : List StatusEvent}
    (hreport : report ≠ []) : (if condition then [] else report) = [] ↔ condition := by
  split
  · next h => exact iff_of_true rfl h
  · next h => exact iff_of_false hreport h

theorem runState_eq_nil_iff : runState (some a) b = [] ↔ a.runState = b.runState := by
  refine (ite_eq_nil_iff ?_).trans (map_eq_iff Snapshot.runState)
  split <;> exact List.cons_ne_nil _ _

/-- What is compared with a baseline that powering on makes unknown is news if it has
changed or the machine has just been powered on. -/
theorem baseline_eq_iff {α : Type} (get : Snapshot → α) :
    (if entersOn (some a) b then none else (some a).map get) = some (get b) ↔
      ¬ (get a ≠ get b ∨ a.runState ≠ .on ∧ b.runState = .on) := by
  have henters : entersOn (some a) b = true ↔ a.runState ≠ .on ∧ b.runState = .on := by
    rw [entersOn_iff, Option.map_some, ne_eq, Option.some_inj]
  rw [not_or, not_ne_iff, ← henters]
  split
  · next h => exact iff_of_false nofun fun hand => hand.2 h
  · next h => exact (map_eq_iff get).trans (and_iff_left h).symm

theorem mode_eq_nil_iff : mode (some a) b = [] ↔ ¬ Due a b .mode :=
  (ite_eq_nil_iff (List.cons_ne_nil _ _)).trans (baseline_eq_iff Snapshot.mode)

theorem interp_eq_nil_iff : interp (some a) b = [] ↔ ¬ Due a b .interp :=
  (ite_eq_nil_iff (List.append_ne_nil_of_right_ne_nil _ (List.cons_ne_nil _ _))).trans
    (baseline_eq_iff Snapshot.interpState)

/-- A segment that reports a field if it is not what it was. -/
theorem field_eq_nil_iff {α : Type} [DecidableEq α] (get : Snapshot → α)
    {report : List StatusEvent} (hreport : report ≠ []) :
    (if (some a).map get = some (get b) then [] else report) = [] ↔ ¬ get a ≠ get b := by
  rw [ite_eq_nil_iff hreport, map_eq_iff, not_ne_iff]

/-- **A segment is empty exactly if there is nothing to report on its aspect.** -/
theorem segment_eq_nil_iff : segment (some a) b policy x = [] ↔ ¬ Due a b x := by
  cases x with
  | runState => exact runState_eq_nil_iff.trans not_ne_iff.symm
  | mode => exact mode_eq_nil_iff
  | interp => exact interp_eq_nil_iff
  | file => exact field_eq_nil_iff Snapshot.loadedFile (List.cons_ne_nil _ _)
  | line => exact field_eq_nil_iff Snapshot.currentLine (List.cons_ne_nil _ _)
  | tool => exact field_eq_nil_iff Snapshot.activeTool (List.cons_ne_nil _ _)
  | homing =>
    exact field_eq_nil_iff Snapshot.homed
      (List.append_ne_nil_of_right_ne_nil _ (List.cons_ne_nil _ _))
  | display => exact iff_of_true rfl id

/-- An aspect is reported exactly if there is something to report on it. -/
theorem exists_aspect_iff :
    (∃ e ∈ changes (some a) b policy, e.aspect = x) ↔ Due a b x := by
  rw [changes_eq_segments, bootstrap, List.nil_append]
  constructor
  · rintro ⟨e, he, rfl⟩
    obtain ⟨y, -, hmem⟩ := List.mem_flatMap.1 he
    rw [aspect_of_mem_segment hmem]
    by_contra hdue
    rw [segment_eq_nil_iff.2 hdue] at hmem
    cases hmem
  · intro hdue
    have hne : segment (some a) b policy x ≠ [] := fun hnil => segment_eq_nil_iff.1 hnil hdue
    obtain ⟨e, he⟩ := List.exists_mem_of_ne_nil _ hne
    have hx : x ∈ Aspect.reported := Aspect.mem_reported.2 fun h => by rw [h] at hdue; exact hdue
    exact ⟨e, List.mem_flatMap.2 ⟨x, hx, he⟩, aspect_of_mem_segment he⟩

theorem changes_eq_nil_iff_not_due : changes (some a) b policy = [] ↔ ∀ x, ¬ Due a b x := by
  rw [List.eq_nil_iff_forall_not_mem]
  constructor
  · intro hnone x hdue
    obtain ⟨e, he, -⟩ := exists_aspect_iff.2 hdue
    exact hnone e he
  · exact fun hnone e he => hnone e.aspect (exists_aspect_iff.1 ⟨e, he, rfl⟩)

/-- There is nothing to report exactly if the snapshots agree but for the mask. -/
theorem not_due_iff : (∀ x, ¬ Due a b x) ↔ { a with axisMask := b.axisMask } = b := by
  constructor
  · intro hnone
    have hrun : a.runState = b.runState := not_ne_iff.1 (hnone .runState)
    have hmode : a.mode = b.mode := not_ne_iff.1 (not_or.1 (hnone .mode)).1
    have hinterp : a.interpState = b.interpState := not_ne_iff.1 (not_or.1 (hnone .interp)).1
    have hfile : a.loadedFile = b.loadedFile := not_ne_iff.1 (hnone .file)
    have hline : a.currentLine = b.currentLine := not_ne_iff.1 (hnone .line)
    have htool : a.activeTool = b.activeTool := not_ne_iff.1 (hnone .tool)
    have hhomed : a.homed = b.homed := not_ne_iff.1 (hnone .homing)
    rw [hrun, hmode, hinterp, hfile, hline, htool, hhomed]
  · intro heq x hdue
    rw [← heq] at hdue
    cases x with
    | mode | interp =>
      rcases hdue with hne | ⟨hne, hon⟩
      · exact hne rfl
      · exact hne hon
    | display => exact hdue
    | _ => exact hdue rfl

/-! ## The two policies -/

/-- Under both policies the same events come before the verdict on homing, if there is one. -/
theorem changes_verdict (previous : Option Snapshot) (s : Snapshot) :
    (∀ policy policy', changes previous s policy = changes previous s policy') ∨
      ∃ before, ∀ policy, changes previous s policy =
        before ++ [(HomingSummary.scan s.homed s.axisMask).verdict policy] := by
  by_cases hsame : previous.map (·.homed) = some s.homed
  · refine .inl fun policy policy' => ?_
    rw [changes, changes, homing, homing, if_pos hsame, if_pos hsame]
  · let homed := (HomingSummary.scan s.homed s.axisMask).homed
    let before := bootstrap previous s ++ runState previous s ++ mode previous s ++
      interp previous s ++ file previous s ++ line previous s ++ tool previous s ++
      if homed.isEmpty then [] else [.homed homed]
    refine .inr ⟨before, fun policy => ?_⟩
    rw [changes, homing, if_neg hsame, HomingSummary.events_eq, ← List.append_assoc]

/-- Two policies that disagree report the two opposite verdicts in the end. -/
theorem changes_policies (previous : Option Snapshot) (s : Snapshot) :
    changes previous s .countMatch = changes previous s .activeAxes ∨
      ∃ before joints, ∃ policy policy' : HomingPolicy, policy ≠ policy' ∧
        changes previous s policy = before ++ [.allHomed] ∧
        changes previous s policy' = before ++ [.notAllHomed joints] := by
  rcases changes_verdict previous s with hsame | ⟨before, hverdict⟩
  · exact .inl (hsame _ _)
  · have hcount := hverdict .countMatch
    have hactive := hverdict .activeAxes
    rw [HomingSummary.verdict] at hcount hactive
    split at hcount <;> split at hactive
    · exact .inl (hcount.trans hactive.symm)
    · exact .inr ⟨before, _, .countMatch, .activeAxes, by decide, hcount, hactive⟩
    · exact .inr ⟨before, _, .activeAxes, .countMatch, by decide, hactive, hcount⟩
    · exact .inl (hcount.trans hactive.symm)

end Changes

/-- **Exactly what has changed is reported, in a fixed order.** Between two snapshots
there are no events if and only if they agree but for the mask, and events on an
aspect if and only if there is something to report on it. All events come in the order
of their aspects, at the first update after three that open it. The two policies give
the same events but for the verdict on homing, which comes last. -/
theorem changes_exact (a b : Snapshot) (policy : HomingPolicy) :
    (changes (some a) b policy = [] ↔ { a with axisMask := b.axisMask } = b) ∧
    (∀ x, (∃ e ∈ changes (some a) b policy, e.aspect = x) ↔ Changes.Due a b x) ∧
    InOrder (changes (some a) b policy) ∧
    (∃ later, InOrder later ∧ changes none b policy =
      [if .estop < b.runState then .estopReset else .estop, .off, .interpIdle] ++ later) ∧
    (∀ mask, changes (some a) { a with axisMask := mask } policy = []) ∧
    ∀ previous, changes previous b .countMatch = changes previous b .activeAxes ∨
      ∃ before joints, ∃ policy policy' : HomingPolicy, policy ≠ policy' ∧
        changes previous b policy = before ++ [.allHomed] ∧
        changes previous b policy' = before ++ [.notAllHomed joints] := by
  have hnil : ∀ {b}, changes (some a) b policy = [] ↔ { a with axisMask := b.axisMask } = b :=
    Changes.changes_eq_nil_iff_not_due.trans Changes.not_due_iff
  refine ⟨hnil, fun x => Changes.exists_aspect_iff, ?_,
    ⟨_, Changes.inOrder_segments none b policy, ?_⟩, fun mask => hnil.2 rfl,
    fun previous => Changes.changes_policies previous b⟩
  · rw [Changes.changes_eq_segments, Changes.bootstrap, List.nil_append]
    exact Changes.inOrder_segments (some a) b policy
  · exact Changes.changes_eq_segments none b policy

end MachinePanel
