/-
Listeners that only look on. A listener may remember what it is told, and go by
that; an onlooker does no more than this. So when listeners are onlookers, what an
emission does to the panel can be said in full (`utters_emit`): it stands in the
history, and besides the books no more than the memory of the listeners changes.
-/
import MachinePanel.Proofs.Books

namespace MachinePanel

/-- What is emitted and where. -/
abbrev Tiding := Channel × String × Notice

/-- What the history tells of passes and emissions. -/
inductive Bulletin where
  | read (readings : List Reading)
  | told (tiding : Tiding)

/-- The readings of a pass. -/
def Bulletin.readings? : Bulletin → Option (List Reading)
  | read readings => some readings
  | told _ => none

/-- The bulletin about a happening. -/
def Happening.bulletin? {L : Type} : Happening L → Option Bulletin
  | pass readings => some (.read readings)
  | emission _ channel name notice => some (.told (channel, name, notice))
  | _ => none

/-- The operation changes no more than what listeners remember. -/
def Operation.isRemember {L μ : Type} : Operation L μ → Bool
  | remember _ => true
  | _ => false

/-- All listeners are onlookers. -/
def LooksOn {L μ : Type} (conduct : Conduct L μ) : Prop :=
  ∀ l n p, (conduct l n p).All (fun _ op => op.isRemember = true) p

namespace Panel

variable {L μ : Type} {p q r : Panel L μ} {react : Reaction L μ}

/-- The bulletins of what has happened. -/
def bulletins (p : Panel L μ) : List Bulletin :=
  p.past.filterMap Happening.bulletin?

theorem bulletins_of_past {added : List (Happening L)} (h : q.past = p.past ++ added) :
    q.bulletins = p.bulletins ++ added.filterMap Happening.bulletin? := by
  rw [bulletins, h, List.filterMap_append]
  rfl

theorem Quiet.bulletins (h : Quiet p q) : q.bulletins = p.bulletins := by
  rw [Panel.bulletins, h.past]
  rfl

/-- From `p` to `q` these tidings are emitted. Nothing else changes but the books and
what listeners remember. -/
structure Utters (tidings : List Tiding) (p q : Panel L μ) : Prop where
  bare : q.bare = p.guise id fun _ => q.memory
  bulletins : q.bulletins = p.bulletins ++ tidings.map .told

namespace Utters

variable {tidings later : List Tiding}

theorem trans (h : Utters tidings p q) (h' : Utters later q r) : Utters (tidings ++ later) p r where
  bare := by
    have hq : q.guise id (fun _ => r.memory) = q.bare.guise id fun _ => r.memory := rfl
    rw [h'.bare, hq, h.bare]
    rfl
  bulletins := by rw [h'.bulletins, h.bulletins, List.map_append, List.append_assoc]

end Utters

theorem utters_record (p : Panel L μ) {x : Happening L} {tidings : List Tiding}
    (hx : x.bulletin?.toList = tidings.map .told) : Utters tidings p (p.record x) where
  bare := rfl
  bulletins := by
    rw [bulletins_of_past (past_record p x), ← hx]
    cases hb : x.bulletin? <;> simp [hb]

theorem utters_strand : Strand (Utters (L := L) (μ := μ) []) where
  refl _ := ⟨rfl, (List.append_nil _).symm⟩
  trans := Utters.trans
  note _ _ _ := ⟨rfl, (List.append_nil _).symm⟩

theorem utters_emit (hreact : ∀ l n p, Utters [] p (react l n p).2) (p : Panel L μ)
    (cause : Cause) (channel : Channel) (name : String) (notice : Notice) :
    Utters [(channel, name, notice)] p (p.emit react cause channel name notice).2 := by
  rw [emit_eq]
  have hbegin : Utters [(channel, name, notice)] p
      (p.record (.emission cause channel name notice)) := utters_record p rfl
  refine hbegin.trans (utters_strand.serve hreact ?_ ?_ ?_ name _ _)
  · exact fun q s => utters_record q rfl
  · exact fun q s c => utters_record q rfl
  · exact fun q n => utters_record q rfl

theorem utters_emitAll (hreact : ∀ l n p, Utters [] p (react l n p).2) (cause : Cause)
    (channel : Channel) (notices : List (String × Notice)) (p : Panel L μ) :
    Utters (notices.map (channel, ·)) p (p.emitAll react cause channel notices) := by
  unfold emitAll
  induction notices generalizing p with
  | nil => exact utters_strand.refl p
  | cons n rest ih => exact (utters_emit hreact p cause channel n.1 n.2).trans (ih _)

theorem utters_finishPass (hreact : ∀ l n p, Utters [] p (react l n p).2) (number : Nat)
    (changed : List String) (p : Panel L μ) :
    Utters ((pinNotices changed).map (.pins, ·)) p (p.finishPass react number changed) := by
  have hend : ∀ q : Panel L μ, Utters [] q (q.record (.passEnd number changed.length)) :=
    fun q => utters_record q rfl
  have h := (utters_emitAll hreact (.pass number) .pins (pinNotices changed) p).trans (hend _)
  rwa [List.append_nil] at h

theorem utters_react {conduct : Conduct L μ} (h : LooksOn conduct) (depth : Nat) (l : L)
    (n : Notice) (p : Panel L μ) : Utters [] p (conduct.react depth l n p).2 := by
  refine utters_strand.reaction h (fun {react} _ op p hop => ?_) depth l n p
  cases op with
  | remember change => exact ⟨rfl, (List.append_nil _).symm⟩
  | _ => cases hop

end Panel

end MachinePanel
