/-
The emissions of a cause. An update and a pass each emit a list of notices, and
listeners may emit, update and poll meanwhile. What they do then has other
causes, so that the emissions of the cause are exactly those of the list.
-/
import MachinePanel.Proofs.History

namespace MachinePanel

variable {L : Type}

/-- What is emitted and where, if the happening is an emission of the cause. -/
def Happening.emissionFor? (cause : Cause) : Happening L → Option (Channel × String × Notice)
  | emission c channel name notice => if c = cause then some (channel, name, notice) else none
  | _ => none

/-- What was emitted for a cause, and where. -/
def emissionsFor (cause : Cause) (happenings : List (Happening L)) :
    List (Channel × String × Notice) :=
  happenings.filterMap (Happening.emissionFor? cause)

theorem emissionsFor_append (cause : Cause) (l₁ l₂ : List (Happening L)) :
    emissionsFor cause (l₁ ++ l₂) = emissionsFor cause l₁ ++ emissionsFor cause l₂ :=
  List.filterMap_append

theorem Happening.emissionFor?_eq_none {number : Nat} {cause : Cause} {x : Happening L}
    (hc : cause.subject? = some number) (hx : x.subject? ≠ some number) :
    x.emissionFor? cause = none := by
  cases x with
  | emission c channel name notice =>
    have hne : c ≠ cause := by
      rintro rfl
      exact hx hc
    simp [emissionFor?, hne]
  | _ => rfl

theorem Foreign.emissionsFor {number : Nat} {cause : Cause} {l : List (Happening L)}
    (h : Foreign number l) (hc : cause.subject? = some number) : emissionsFor cause l = [] :=
  h.filterMap_eq_nil fun _ => Happening.emissionFor?_eq_none hc

namespace Panel

variable {μ β : Type} {p q r : Panel L μ} {react : Reaction L μ} {cause : Cause} {number : Nat}
  {f : Happening L → Option β}

/-- Of what belongs to a happening under way, an emission adds no more than its own beginning. -/
theorem filterMap_emit (hreact : ∀ l n p, Grows [] p (react l n p).2)
    (hf : ∀ x, x.subject? ≠ some number → f x = none) (cause : Cause) (channel : Channel)
    (name : String) (notice : Notice) (p : Panel L μ) (hlt : number < p.past.length) :
    (since p (p.emit react cause channel name notice).2).filterMap f =
      (f (.emission cause channel name notice)).toList := by
  rw [emit_eq]
  let begun := p.record (.emission cause channel name notice)
  have hbegun : begun.past = p.past ++ [.emission cause channel name notice] := past_record p _
  have hlen : begun.past.length = p.past.length + 1 := by simp [hbegun]
  have hs := grows_serve hreact p.past.length name notice ((p.bus channel).recipients name) begun
  have hforeign : Foreign number
      (since begun
        (begun.serve react p.past.length name notice ((p.bus channel).recipients name)).2) := by
    intro x hx hn
    rcases hs.subject x hx number hn with h | h
    · obtain rfl := List.mem_singleton.1 h
      omega
    · omega
  rw [since_append ⟨[_], hbegun.symm⟩ hs.continues, List.filterMap_append,
    hforeign.filterMap_eq_nil hf, since_eq hbegun, List.append_nil]
  cases hx : f (.emission cause channel name notice) <;> simp [hx]

theorem filterMap_emitAll (hreact : ∀ l n p, Grows [] p (react l n p).2)
    (hf : ∀ x, x.subject? ≠ some number → f x = none) (cause : Cause) (channel : Channel)
    (notices : List (String × Notice)) (p : Panel L μ) (hlt : number < p.past.length) :
    (since p (p.emitAll react cause channel notices)).filterMap f =
      notices.filterMap fun n => f (.emission cause channel n.1 n.2) := by
  induction notices generalizing p with
  | nil => simp [emitAll, (Quiet.refl p).since]
  | cons n rest ih =>
    have hn := grows_emit hreact p cause channel n.1 n.2
    have hrest := grows_emitAll hreact cause channel rest (p.emit react cause channel n.1 n.2).2
    have hlen := hn.length_le
    change (since p (emitAll react cause channel rest
      (p.emit react cause channel n.1 n.2).2)).filterMap f = _
    rw [since_append hn.continues hrest.continues, List.filterMap_append,
      filterMap_emit hreact hf cause channel n.1 n.2 p hlt, ih _ (by omega), List.filterMap_cons]
    cases f (.emission cause channel n.1 n.2) <;> rfl

/-- Emitting a list for a cause emits exactly this list for it. -/
theorem emissionsFor_emitAll (hreact : ∀ l n p, Grows [] p (react l n p).2)
    (hc : cause.subject? = some number) (channel : Channel) (notices : List (String × Notice))
    (p : Panel L μ) (hlt : number < p.past.length) :
    emissionsFor cause (since p (p.emitAll react cause channel notices)) =
      notices.map (channel, ·) := by
  rw [emissionsFor, filterMap_emitAll hreact (fun _ => Happening.emissionFor?_eq_none hc) cause
    channel notices p hlt]
  simp [Happening.emissionFor?]

end Panel

end MachinePanel
