/-
What an emission does, told by the history it leaves, whatever the listeners
do while it lasts: they may subscribe and unsubscribe, clear the bus, emit
again, or panic. `emit_serves` says that it calls exactly those subscribed
when it began whose filter accepts the name, each once and in order
(`Served`), and so does every emission that listeners make meanwhile. What
stands between the beginning of a call and its end is what the listener makes of
the panel, and the call ends as the listener does (`Calls`). Who is subscribed at
any moment is what the subscriptions made and cancelled so far amount to
(`emissionLedger`).
-/
import MachinePanel.Proofs.Ledger

namespace MachinePanel

variable {L : Type}

namespace Happening

/-- What the happening makes of the subscriptions of a channel. -/
def revise (channel : Channel) (subscribers : List (Subscription L)) :
    Happening L → List (Subscription L)
  | subscribed c s => if c = channel then subscribers ++ [s] else subscribers
  | unsubscribed c id => if c = channel then subscribers.filter (·.id != id) else subscribers
  | cleared c => if c = channel then [] else subscribers
  | _ => subscribers

/-- The subscriber called and the notice, if the happening is a call of the emission. -/
def callOf? (emission : Nat) : Happening L → Option (Subscription L × Notice)
  | call e s notice => if e = emission then some (s, notice) else none
  | _ => none

/-- The subscriber and how its call ended, if the happening is the end of a call of the emission. -/
def callEndOf? (emission : Nat) : Happening L → Option (Subscription L × Completion)
  | callEnd e s completion => if e = emission then some (s, completion) else none
  | _ => none

/-- The count an emission ends with, if the happening is its end. -/
def endOf? (emission : Nat) : Happening L → Option Nat
  | emissionEnd e n => if e = emission then some n else none
  | _ => none

end Happening

/-- Among what happened, the emission called these subscribers, each once and in
order, with its notice, and so many of them returned. -/
structure Called (emission : Nat) (notice : Notice) (reached : List (Subscription L))
    (returned : Nat) (happenings : List (Happening L)) : Prop where
  calls : happenings.filterMap (Happening.callOf? emission) = reached.map (·, notice)
  callEnds : (happenings.filterMap (Happening.callEndOf? emission)).map (·.1) = reached
  count : returned =
    (happenings.filterMap (Happening.callEndOf? emission)).countP (·.2 == .returned)

/-- Beside the calls, the emission ends once, with the number of listeners that returned. -/
structure Served (emission : Nat) (notice : Notice) (reached : List (Subscription L))
    (delivered : Nat) (happenings : List (Happening L)) : Prop
    extends Called emission notice reached delivered happenings where
  ends : happenings.filterMap (Happening.endOf? emission) = [delivered]

namespace Happening

theorem callOf?_eq_none {h : Happening L} {emission : Nat} (hne : h.subject? ≠ some emission) :
    h.callOf? emission = none := by
  cases h <;> simp_all [callOf?, subject?]

theorem callEndOf?_eq_none {h : Happening L} {emission : Nat} (hne : h.subject? ≠ some emission) :
    h.callEndOf? emission = none := by
  cases h <;> simp_all [callEndOf?, subject?]

theorem endOf?_eq_none {h : Happening L} {emission : Nat} (hne : h.subject? ≠ some emission) :
    h.endOf? emission = none := by
  cases h <;> simp_all [endOf?, subject?]

end Happening

namespace Foreign

variable {emission : Nat} {l : List (Happening L)}

theorem calls (h : Foreign emission l) : l.filterMap (Happening.callOf? emission) = [] :=
  h.filterMap_eq_nil fun _ => Happening.callOf?_eq_none

theorem callEnds (h : Foreign emission l) : l.filterMap (Happening.callEndOf? emission) = [] :=
  h.filterMap_eq_nil fun _ => Happening.callEndOf?_eq_none

theorem ends (h : Foreign emission l) : l.filterMap (Happening.endOf? emission) = [] :=
  h.filterMap_eq_nil fun _ => Happening.endOf?_eq_none

end Foreign

theorem Foreign.called {emission : Nat} {l : List (Happening L)} (h : Foreign emission l)
    (notice : Notice) : Called emission notice [] 0 l where
  calls := by rw [h.calls]; rfl
  callEnds := by rw [h.callEnds]; rfl
  count := by rw [h.callEnds]; rfl

theorem Called.append {emission n₁ n₂ : Nat} {notice : Notice} {r₁ r₂ : List (Subscription L)}
    {l₁ l₂ : List (Happening L)} (h₁ : Called emission notice r₁ n₁ l₁)
    (h₂ : Called emission notice r₂ n₂ l₂) :
    Called emission notice (r₁ ++ r₂) (n₁ + n₂) (l₁ ++ l₂) where
  calls := by rw [List.filterMap_append, h₁.calls, h₂.calls, List.map_append]
  callEnds := by rw [List.filterMap_append, List.map_append, h₁.callEnds, h₂.callEnds]
  count := by rw [List.filterMap_append, List.countP_append, ← h₁.count, ← h₂.count]

theorem Served.append {emission delivered : Nat} {notice : Notice}
    {reached : List (Subscription L)} {l₁ l₂ : List (Happening L)}
    (h : Served emission notice reached delivered l₁) (hf : Foreign emission l₂) :
    Served emission notice reached delivered (l₁ ++ l₂) where
  toCalled := by simpa using h.toCalled.append (hf.called notice)
  ends := by rw [List.filterMap_append, hf.ends, List.append_nil, h.ends]

/-- The ledger of emissions. Its state is who is subscribed to each channel, and
an emission requires to be served as the subscriptions stand when it begins. -/
def emissionLedger : Ledger L (Channel → List (Subscription L)) where
  enter subscribers x channel := x.revise channel (subscribers channel)
  requires subscribers number
    | .emission _ channel name notice, l => ∃ delivered,
      Served number notice ((subscribers channel).filter (·.filter.accepts name)) delivered l
    | _, _ => True
  requires_append {subscribers number x l₁ l₂} h hf := by
    cases x with
    | emission cause channel name notice =>
      obtain ⟨delivered, hs⟩ := h
      exact ⟨delivered, hs.append hf⟩
    | _ => trivial

namespace Panel

variable {μ : Type} {p q r : Panel L μ} {react : Reaction L μ}

/-- The subscriptions of a channel. -/
def subscribers (p : Panel L μ) (channel : Channel) : List (Subscription L) :=
  (p.bus channel).subscriptions

theorem bus_record (p : Panel L μ) (x : Happening L) : (p.record x).bus = p.bus := by
  funext c
  cases c <;> rfl

theorem subscribers_of_bus (h : q.bus = p.bus) : q.subscribers = p.subscribers := by
  funext c
  rw [subscribers, h, subscribers]

/-- The account of emissions. -/
def emissions : Account L μ (Channel → List (Subscription L)) where
  toLedger := emissionLedger
  view := subscribers
  view_quiet h := subscribers_of_bus h.bus
  view_record p x := subscribers_of_bus (bus_record p x)

/-- From `p` to `q` the subscriptions change as the history tells, and all emissions are served. -/
abbrev Serves (underway : List Nat) (p q : Panel L μ) : Prop :=
  emissions.Holds underway p q

theorem ignores_call (n : Nat) (s : Subscription L) (notice : Notice) :
    (emissions (L := L) (μ := μ)).Ignores (.call n s notice) :=
  ⟨fun _ => rfl, fun _ _ _ => trivial⟩

theorem ignores_callEnd (n : Nat) (s : Subscription L) (completion : Completion) :
    (emissions (L := L) (μ := μ)).Ignores (.callEnd n s completion) :=
  ⟨fun _ => rfl, fun _ _ _ => trivial⟩

theorem ignores_emissionEnd (n delivered : Nat) :
    (emissions (L := L) (μ := μ)).Ignores (.emissionEnd n delivered) :=
  ⟨fun _ => rfl, fun _ _ _ => trivial⟩

/-! ## One emission -/

/-- From `p` to `q` an emission calls these subscribers, so many of which
return; all other emissions begin and end there. -/
structure Delivers (emission : Nat) (notice : Notice) (reached : List (Subscription L))
    (returned : Nat) (p q : Panel L μ) : Prop where
  serves : Serves [emission] p q
  called : Called emission notice reached returned (since p q)
  ends : (since p q).filterMap (Happening.endOf? emission) = []

variable {emission : Nat} {notice : Notice}

theorem Delivers.trans {r₁ r₂ : List (Subscription L)} {n₁ n₂ : Nat}
    (h₁ : Delivers emission notice r₁ n₁ p q) (h₂ : Delivers emission notice r₂ n₂ q r) :
    Delivers emission notice (r₁ ++ r₂) (n₁ + n₂) p r where
  serves := h₁.serves.trans h₂.serves
  called := by
    rw [h₁.serves.grows.since_trans h₂.serves.grows]
    exact h₁.called.append h₂.called
  ends := by
    rw [h₁.serves.grows.since_trans h₂.serves.grows, List.filterMap_append, h₁.ends, h₂.ends]
    rfl

/-- What listeners do has no part in an emission under way. -/
theorem delivers_of_serves (h : Serves [] p q) (hlt : emission < p.past.length) (notice : Notice) :
    Delivers emission notice [] 0 p q where
  serves := h.mono (by simp)
  called := (h.grows.foreign hlt).called notice
  ends := (h.grows.foreign hlt).ends

/-- What a call leaves in the history: its beginning, what the listener does, which has no part
in the emission, and its end. -/
theorem since_call (hreact : ∀ l n p, Grows [] p (react l n p).2)
    (hlt : emission < p.past.length) (notice : Notice) (s : Subscription L) :
    let begun := p.record (.call emission s notice)
    let answer := react s.listener notice begun
    let ended := answer.2.record (.callEnd emission s answer.1)
    Grows [emission] p ended ∧ Foreign emission (since begun answer.2) ∧
      since p ended =
        .call emission s notice :: (since begun answer.2 ++ [.callEnd emission s answer.1]) := by
  intro begun answer ended
  have hmid : Grows [] begun answer.2 := hreact s.listener notice begun
  have hbegin : Grows [emission] p begun := grows_record (by simp [Happening.subject?])
  have hend : Grows [emission] answer.2 ended := grows_record (by simp [Happening.subject?])
  have hlt' : emission < begun.past.length := by simp [begun]; omega
  refine ⟨(grows_course _).trans hbegin ((grows_course _).trans (hmid.mono (by simp)) hend),
    hmid.foreign hlt', since_eq ?_⟩
  simp [ended, hmid.past_eq, begun]

theorem delivers_call (hreact : ∀ l n p, Serves [] p (react l n p).2)
    (hlt : emission < p.past.length) (notice : Notice) (s : Subscription L) :
    Delivers emission notice [s]
      (if (p.call react emission notice s).1 = .returned then 1 else 0)
      p (p.call react emission notice s).2 := by
  let begun := p.record (.call emission s notice)
  let completion := (react s.listener notice begun).1
  let done := (react s.listener notice begun).2
  have hmid : Serves [] begun done := hreact s.listener notice begun
  have hbegin : Serves [emission] p begun :=
    Account.holds_record (ignores_call ..) (by simp [Happening.subject?]) p
  have hend : Serves [emission] done (done.record (.callEnd emission s completion)) :=
    Account.holds_record (ignores_callEnd ..) (by simp [Happening.subject?]) done
  have hall := hbegin.trans ((hmid.mono (by simp)).trans hend)
  obtain ⟨-, hf, hsince⟩ := since_call (fun l n p => (hreact l n p).grows) hlt notice s
  change Foreign emission (since begun done) at hf
  change since p (done.record (.callEnd emission s completion)) =
    .call emission s notice :: (since begun done ++ [.callEnd emission s completion]) at hsince
  change Delivers emission notice [s] (if completion = .returned then 1 else 0) p
    (done.record (.callEnd emission s completion))
  refine ⟨hall, ⟨?_, ?_, ?_⟩, ?_⟩
  · simp [hsince, hf.calls, List.filterMap_cons, Happening.callOf?]
  · simp [hsince, hf.callEnds, List.filterMap_cons, Happening.callEndOf?]
  · rw [hsince]
    cases completion <;> simp [hf.callEnds, List.filterMap_cons, Happening.callEndOf?]
  · simp [hsince, hf.ends, List.filterMap_cons, Happening.endOf?]

theorem delivers_deliver (hreact : ∀ l n p, Serves [] p (react l n p).2)
    {onPanic : Option String → Panel L μ → Panel L μ} (hpanic : ∀ m p, Quiet p (onPanic m p))
    (subscribers : List (Subscription L)) (p : Panel L μ) (hlt : emission < p.past.length) :
    Delivers emission notice subscribers
      (Bus.deliver (call react emission notice) onPanic subscribers p).1
      p (Bus.deliver (call react emission notice) onPanic subscribers p).2 := by
  induction subscribers generalizing p with
  | nil => exact delivers_of_serves (emissions.holds_course [] |>.refl p) hlt notice
  | cons s rest ih =>
    have hs := delivers_call hreact hlt notice s
    have hlen := hs.serves.grows.length_le
    rw [Bus.deliver]
    split
    · next q heq =>
      simp only [heq] at hs hlen
      have h := hs.trans (ih q (by omega))
      rwa [Nat.add_comm] at h
    · next message q heq =>
      simp only [heq] at hs hlen
      have hq : Serves [] q (onPanic message q) := (emissions.holds_course []).quiet (hpanic ..)
      have hlen' := hq.grows.length_le
      have h := hs.trans ((delivers_of_serves hq (by omega) notice).trans (ih _ (by omega)))
      simpa using h

theorem delivers_serve (hreact : ∀ l n p, Serves [] p (react l n p).2) (name : String)
    (notice : Notice) (recipients : List (Subscription L)) (p : Panel L μ)
    (hlt : emission < p.past.length) :
    ∃ meanwhile,
      (p.serve react emission name notice recipients).2.past = p.past ++ meanwhile ∧
      Served emission notice recipients (p.serve react emission name notice recipients).1
        meanwhile ∧
      meanwhile.getLast? = some (.emissionEnd emission
        (p.serve react emission name notice recipients).1) ∧
      Serves [emission] p (p.serve react emission name notice recipients).2 := by
  let delivery := Bus.deliver (call react emission notice)
    (fun message p => p.note (.listenerPanicked name message)) recipients p
  let delivered := delivery.1
  let done := delivery.2
  change ∃ meanwhile, (done.record (.emissionEnd emission delivered)).past = p.past ++ meanwhile ∧
    Served emission notice recipients delivered meanwhile ∧
    meanwhile.getLast? = some (.emissionEnd emission delivered) ∧
    Serves [emission] p (done.record (.emissionEnd emission delivered))
  have hd : Delivers emission notice recipients delivered p done :=
    delivers_deliver hreact (fun _ q => quiet_note q _) recipients p hlt
  have hend : Serves [emission] done (done.record (.emissionEnd emission delivered)) :=
    Account.holds_record (ignores_emissionEnd ..) (by simp [Happening.subject?]) done
  refine ⟨since p done ++ [.emissionEnd emission delivered], ?_, ⟨⟨?_, ?_, ?_⟩, ?_⟩,
    List.getLast?_concat, hd.serves.trans hend⟩
  · rw [past_record, hd.serves.grows.past_eq, List.append_assoc]
  · simp [hd.called.calls, List.filterMap_cons, Happening.callOf?]
  · simp [hd.called.callEnds, List.filterMap_cons, Happening.callEndOf?]
  · simp [← hd.called.count, List.filterMap_cons, Happening.callEndOf?]
  · simp [hd.ends, Happening.endOf?]

/-! ## The course of the calls -/

/-- From `p` to `q` an emission calls these subscribers in turn. A call is written down, what
follows is what `react` makes of the panel, and the call ends as `react` has it. A panic is
noted. -/
inductive Calls (react : Reaction L μ) (emission : Nat) (name : String) (notice : Notice) :
    List (Subscription L) → List Completion → Panel L μ → Panel L μ → Prop where
  | none (p : Panel L μ) : Calls react emission name notice [] [] p p
  | returned {s : Subscription L} {rest : List (Subscription L)} {completions : List Completion}
      {p called q : Panel L μ}
      (hcall : react s.listener notice (p.record (.call emission s notice)) = (.returned, called))
      (hrest : Calls react emission name notice rest completions
        (called.record (.callEnd emission s .returned)) q) :
      Calls react emission name notice (s :: rest) (.returned :: completions) p q
  | panicked {s : Subscription L} {rest : List (Subscription L)} {completions : List Completion}
      {message : Option String} {p called q : Panel L μ}
      (hcall : react s.listener notice (p.record (.call emission s notice)) =
        (.panicked message, called))
      (hrest : Calls react emission name notice rest completions
        ((called.record (.callEnd emission s (.panicked message))).note
          (.listenerPanicked name message)) q) :
      Calls react emission name notice (s :: rest) (.panicked message :: completions) p q

/-- **Delivering is such a course of calls**, and gives the number of those that returned. -/
theorem calls_deliver (react : Reaction L μ) (emission : Nat) (name : String) (notice : Notice)
    (recipients : List (Subscription L)) (p : Panel L μ) :
    let delivery := Bus.deliver (call react emission notice)
      (fun message p => p.note (.listenerPanicked name message)) recipients p
    ∃ completions, Calls react emission name notice recipients completions p delivery.2 ∧
      delivery.1 = completions.count .returned := by
  induction recipients generalizing p with
  | nil => exact ⟨[], .none p, rfl⟩
  | cons s rest ih =>
    cases hcall : react s.listener notice (p.record (.call emission s notice)) with
    | mk completion called =>
      have hanswer : p.call react emission notice s =
          (completion, called.record (.callEnd emission s completion)) := by
        simp only [call, hcall]
      cases completion with
      | returned =>
        obtain ⟨completions, hrest, hcount⟩ := ih (called.record (.callEnd emission s .returned))
        simp only [Bus.deliver, hanswer]
        refine ⟨.returned :: completions, .returned hcall hrest, ?_⟩
        rw [hcount, List.count_cons_self]
      | panicked message =>
        obtain ⟨completions, hrest, hcount⟩ :=
          ih ((called.record (.callEnd emission s (.panicked message))).note
            (.listenerPanicked name message))
        simp only [Bus.deliver, hanswer]
        refine ⟨.panicked message :: completions, .panicked hcall hrest, ?_⟩
        rw [hcount, List.count_cons_of_ne (by simp)]

theorem Calls.length_eq {name : String} {recipients : List (Subscription L)}
    {completions : List Completion}
    (h : Calls react emission name notice recipients completions p q) :
    completions.length = recipients.length := by
  induction h with
  | none p => rfl
  | returned _ _ ih | panicked _ _ ih => rw [List.length_cons, List.length_cons, ih]

/-- The history tells how each call ended. -/
theorem Calls.callEnds {name : String} {recipients : List (Subscription L)}
    {completions : List Completion} (hreact : ∀ l n p, Grows [] p (react l n p).2)
    (h : Calls react emission name notice recipients completions p q)
    (hlt : emission < p.past.length) :
    Grows [emission] p q ∧
      (since p q).filterMap (Happening.callEndOf? emission) = recipients.zip completions := by
  induction h with
  | none p => exact ⟨(grows_course _).refl p, by simp [(Quiet.refl p).since]⟩
  | @returned s rest completions p called q hcall hrest ih =>
    obtain ⟨hgrows, hf, hsince⟩ := since_call hreact hlt notice s
    simp only [hcall] at hgrows hf hsince
    obtain ⟨hlater, hends⟩ := ih (Nat.lt_of_lt_of_le hlt hgrows.length_le)
    refine ⟨(grows_course _).trans hgrows hlater, ?_⟩
    rw [hgrows.since_trans hlater, hsince, List.filterMap_append, hends]
    simp [hf.callEnds, List.filterMap_cons, Happening.callEndOf?]
  | @panicked s rest completions message p called q hcall hrest ih =>
    obtain ⟨hgrows, hf, hsince⟩ := since_call hreact hlt notice s
    simp only [hcall] at hgrows hf hsince
    let ended := called.record (.callEnd emission s (.panicked message))
    have hnote : Quiet ended (ended.note (.listenerPanicked name message)) := quiet_note ..
    have hquiet : Grows [emission] ended (ended.note (.listenerPanicked name message)) :=
      (grows_course _).quiet hnote
    have hnoted := (grows_course _).trans hgrows hquiet
    obtain ⟨hlater, hends⟩ := ih (Nat.lt_of_lt_of_le hlt hnoted.length_le)
    refine ⟨(grows_course _).trans hnoted hlater, ?_⟩
    rw [hnoted.since_trans hlater, hgrows.since_trans hquiet, hnote.since, hsince, List.append_nil,
      List.filterMap_append, hends]
    simp [hf.callEnds, List.filterMap_cons, Happening.callEndOf?]

/-! ## The whole emission -/

/-- What happens in an emission that begins on `p` and ends on `q`. -/
structure Emitted (channel : Channel) (name : String) (notice : Notice) (delivered : Nat)
    (p q : Panel L μ) (meanwhile : List (Happening L)) : Prop where
  served : Served p.past.length notice ((p.bus channel).recipients name) delivered meanwhile
  ended : meanwhile.getLast? = some (.emissionEnd p.past.length delivered)
  subscribers : q.subscribers = emissionLedger.after p.subscribers meanwhile
  /-- The emissions that listeners make in turn are served as well. -/
  nested : emissionLedger.Settled (p.past.length + 1) p.subscribers meanwhile

theorem emitted_emit (hreact : ∀ l n p, Serves [] p (react l n p).2) (p : Panel L μ)
    (cause : Cause) (channel : Channel) (name : String) (notice : Notice) :
    ∃ meanwhile,
      (p.emit react cause channel name notice).2.past =
        p.past ++ .emission cause channel name notice :: meanwhile ∧
      Emitted channel name notice (p.emit react cause channel name notice).1
        p (p.emit react cause channel name notice).2 meanwhile := by
  rw [emit_eq]
  let begun := p.record (.emission cause channel name notice)
  have hbase : begun.past.length = p.past.length + 1 := by simp [begun]
  have hsubs : begun.subscribers = p.subscribers := subscribers_of_bus (bus_record p _)
  have hlt : p.past.length < begun.past.length := by omega
  obtain ⟨meanwhile, hpast, hserved, hended, hs⟩ :=
    delivers_serve hreact name notice ((p.bus channel).recipients name) begun hlt
  have hview := hs.view
  have hsettled := hs.settled (by simp [hbase])
  rw [since_eq hpast] at hview hsettled
  rw [hbase] at hsettled
  refine ⟨meanwhile, ?_, hserved, hended, ?_, ?_⟩
  · rw [hpast]
    simp [begun]
  · rw [← hsubs]
    exact hview
  · rw [← hsubs]
    exact hsettled

/-- An emission is a course of calls of its recipients, ended with the number of those that
returned. -/
structure Proceeds (react : Reaction L μ) (cause : Cause) (channel : Channel) (name : String)
    (notice : Notice) (p : Panel L μ) (completions : List Completion) (done : Panel L μ) :
    Prop where
  calls : Calls react p.past.length name notice ((p.bus channel).recipients name) completions
    (p.record (.emission cause channel name notice)) done
  result : p.emit react cause channel name notice =
    (completions.count .returned,
      done.record (.emissionEnd p.past.length (completions.count .returned)))
  callEnds : (since p (p.emit react cause channel name notice).2).filterMap
      (Happening.callEndOf? p.past.length) =
    ((p.bus channel).recipients name).zip completions

theorem proceeds_emit (hreact : ∀ l n p, Grows [] p (react l n p).2) (p : Panel L μ)
    (cause : Cause) (channel : Channel) (name : String) (notice : Notice) :
    ∃ completions done, Proceeds react cause channel name notice p completions done := by
  let begun := p.record (.emission cause channel name notice)
  cases hdelivery : Bus.deliver (call react p.past.length notice)
      (fun message p => p.note (.listenerPanicked name message))
      ((p.bus channel).recipients name) begun with
  | mk delivered done =>
    obtain ⟨completions, hcalls, hcount⟩ := calls_deliver react p.past.length name notice
      ((p.bus channel).recipients name) begun
    simp only [hdelivery] at hcalls hcount
    obtain rfl := hcount
    have hresult : p.emit react cause channel name notice = (completions.count .returned,
        done.record (.emissionEnd p.past.length (completions.count .returned))) := by
      rw [emit_eq, serve, hdelivery]
    obtain ⟨hgrows, hends⟩ := hcalls.callEnds hreact (by simp [begun])
    have hsince : since p (done.record (.emissionEnd p.past.length (completions.count .returned))) =
        .emission cause channel name notice :: (since begun done ++
          [.emissionEnd p.past.length (completions.count .returned)]) :=
      since_eq (by simp [hgrows.past_eq, begun])
    refine ⟨completions, done, hcalls, hresult, ?_⟩
    rw [hresult, hsince, List.filterMap_cons, List.filterMap_append, hends]
    simp [Happening.callEndOf?]

theorem serves_emit (hreact : ∀ l n p, Serves [] p (react l n p).2) (p : Panel L μ)
    (cause : Cause) (channel : Channel) (name : String) (notice : Notice) :
    Serves cause.subject?.toList p (p.emit react cause channel name notice).2 := by
  obtain ⟨meanwhile, hpast, h⟩ := emitted_emit hreact p cause channel name notice
  refine ⟨grows_emit (fun l n p => (hreact l n p).grows) p cause channel name notice, ?_, ?_⟩
  · rw [since_eq hpast]
    exact h.subscribers
  · intro _
    rw [since_eq hpast]
    exact Ledger.Settled.cons ⟨_, h.served⟩ h.nested

theorem emissions_ofBuses : (emissions (L := L) (μ := μ)).OfBuses where
  view_eq := subscribers_of_bus
  polled _ _ := ⟨fun _ => rfl, fun _ _ _ => trivial⟩
  pass _ := ⟨fun _ => rfl, fun _ _ _ => trivial⟩
  passEnd _ _ := ⟨fun _ => rfl, fun _ _ _ => trivial⟩
  registered _ _ := ⟨fun _ => rfl, fun _ _ _ => trivial⟩
  unregistered _ := ⟨fun _ => rfl, fun _ _ _ => trivial⟩

theorem serves_permanent : Permanent (Serves (L := L) (μ := μ) []) := by
  refine emissions_ofBuses.permanent serves_emit (fun p channel filter listener => ?_)
    (fun p channel id => ?_) (fun p channel => ?_)
  · refine Account.holds_single (past_subscribe p channel filter listener) (funext fun c => ?_)
      (by simp [Happening.subject?]) trivial
    cases c <;> cases channel <;> rfl
  · refine Account.holds_single (past_unsubscribe p channel id) (funext fun c => ?_)
      (by simp [Happening.subject?]) trivial
    cases c <;> cases channel <;> simp only [Panel.unsubscribe] <;> split <;> rfl
  · refine Account.holds_single (past_clear p channel) (funext fun c => ?_)
      (by simp [Happening.subject?]) trivial
    cases c <;> cases channel <;> rfl

/-- **An emission calls exactly the listeners that are subscribed when it begins
and whose filter accepts the name**, each once, in the order of their
subscriptions, and with its notice, whatever they do. Its result is the number
of those that returned, and the subscriptions they leave are those made and
cancelled meanwhile. The emissions they make are served in the same way. The
panel on which it ends is what the listeners have made of it one after the other. -/
theorem emit_serves (conduct : Conduct L μ) (depth : Nat) (p : Panel L μ) (cause : Cause)
    (channel : Channel) (name : String) (notice : Notice) :
    let react := conduct.react depth
    let emitted := p.emit react cause channel name notice
    (∃ meanwhile,
      emitted.2.past = p.past ++ .emission cause channel name notice :: meanwhile ∧
      Emitted channel name notice emitted.1 p emitted.2 meanwhile) ∧
    ∃ completions done, Proceeds react cause channel name notice p completions done := by
  intro react emitted
  exact ⟨emitted_emit (serves_permanent.reaction conduct depth) p cause channel name notice,
    proceeds_emit (grows_permanent.reaction conduct depth) p cause channel name notice⟩

end Panel

end MachinePanel
