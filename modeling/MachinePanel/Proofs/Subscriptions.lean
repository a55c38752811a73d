/-
The subscriptions of a bus over its whole life. They stand in the order of their
numbers (`Bus.Ordered`), which every happening preserves, so that a number is given
out once only and cancelling it takes out that subscription and no other
(`Bus.Cancels`). What the buses of a panel are at any moment is what the history has
made of them (`busLedger`), also while listeners are being called.
-/
import MachinePanel.Proofs.Emission

namespace MachinePanel

variable {L : Type}

namespace Bus

variable {bus : Bus L} {id : Nat}

/-- The subscriptions stand in the order of their numbers, and the next number is above them. -/
structure Ordered (bus : Bus L) : Prop where
  increasing : bus.subscriptions.Pairwise (·.id < ·.id)
  given : ∀ s ∈ bus.subscriptions, s.id < bus.nextId

theorem ordered_empty : Ordered ({} : Bus L) where
  increasing := .nil
  given := by simp

theorem Ordered.subscribe (h : bus.Ordered) (filter : Filter) (listener : L) :
    (bus.subscribe filter listener).2.Ordered where
  increasing := by
    refine List.pairwise_append.2
      ⟨h.increasing, List.pairwise_singleton _ _, fun s hs t ht => ?_⟩
    obtain rfl := List.mem_singleton.1 ht
    exact h.given s hs
  given s hs := by
    rcases List.mem_append.1 hs with hs | hs
    · exact Nat.lt_succ_of_lt (h.given s hs)
    · obtain rfl := List.mem_singleton.1 hs
      exact Nat.lt_succ_self _

theorem Ordered.unsubscribe (h : bus.Ordered) (id : Nat) : (bus.unsubscribe id).2.Ordered where
  increasing := h.increasing.filter _
  given s hs := h.given s (List.mem_filter.1 hs).1

theorem ordered_clear (bus : Bus L) : bus.clear.Ordered where
  increasing := .nil
  given := by simp [clear]

/-- What cancelling a number answers, and the bus it leaves. -/
inductive Cancels (bus : Bus L) (id : Nat) : Bool × Bus L → Prop
  | found {front back : List (Subscription L)} {s : Subscription L}
      (hsplit : bus.subscriptions = front ++ s :: back) (hid : s.id = id) :
      Cancels bus id (true, { bus with subscriptions := front ++ back })
  | absent (hid : ∀ s ∈ bus.subscriptions, s.id ≠ id) : Cancels bus id (false, bus)

/-- A subscription of the number is found if and only if there is one. -/
theorem Cancels.fst_iff {answer : Bool × Bus L} (h : bus.Cancels id answer) :
    answer.1 = true ↔ ∃ s ∈ bus.subscriptions, s.id = id := by
  cases h with
  | @found front back s hsplit hid =>
    simp only [true_iff]
    exact ⟨s, by simp [hsplit], hid⟩
  | absent hid =>
    simp only [Bool.false_eq_true, false_iff, not_exists, not_and]
    exact hid

theorem filter_ne_eq_self {l : List (Subscription L)} (h : ∀ s ∈ l, s.id ≠ id) :
    l.filter (·.id != id) = l :=
  List.filter_eq_self.2 fun s hs => by simpa using h s hs

theorem Ordered.cancels (h : bus.Ordered) (id : Nat) : bus.Cancels id (bus.unsubscribe id) := by
  by_cases hid : ∃ s ∈ bus.subscriptions, s.id = id
  · obtain ⟨s, hs, rfl⟩ := hid
    obtain ⟨front, back, hsplit⟩ := List.append_of_mem hs
    have hincreasing := h.increasing
    rw [hsplit] at hincreasing
    obtain ⟨-, hback, hfront⟩ := List.pairwise_append.1 hincreasing
    -- The numbers in front are smaller, those behind are greater.
    have hfront' : ∀ t ∈ front, t.id ≠ s.id := fun t ht =>
      Nat.ne_of_lt (hfront t ht s (by simp))
    have hback' : ∀ t ∈ back, t.id ≠ s.id := fun t ht =>
      Nat.ne_of_gt ((List.pairwise_cons.1 hback).1 t ht)
    have hrest : bus.subscriptions.filter (·.id != s.id) = front ++ back := by
      rw [hsplit, List.filter_append, List.filter_cons_of_neg (by simp), filter_ne_eq_self hfront',
        filter_ne_eq_self hback']
    have hany : bus.subscriptions.any (·.id == s.id) = true := by simp [hsplit]
    rw [Bus.unsubscribe, hany, hrest]
    exact .found hsplit rfl
  · have hnone : ∀ s ∈ bus.subscriptions, s.id ≠ id := fun s hs heq => hid ⟨s, hs, heq⟩
    have hany : bus.subscriptions.any (·.id == id) = false := by simpa using hnone
    rw [Bus.unsubscribe, hany, filter_ne_eq_self hnone]
    exact .absent hnone

end Bus

/-! ## The buses as the history makes them -/

namespace Happening

/-- What the happening makes of the bus of a channel. -/
def alter (channel : Channel) (bus : Bus L) : Happening L → Bus L
  | subscribed c s => if c = channel then (bus.subscribe s.filter s.listener).2 else bus
  | unsubscribed c id => if c = channel then (bus.unsubscribe id).2 else bus
  | cleared c => if c = channel then bus.clear else bus
  | _ => bus

/-- The number a channel gives out, if the happening is a subscription to it. -/
def numberFor? (channel : Channel) : Happening L → Option Nat
  | subscribed c s => if c = channel then some s.id else none
  | _ => none

variable {bus : Bus L} {channel : Channel}

/-- Every happening leaves the subscriptions in order. -/
theorem ordered_alter (h : bus.Ordered) (x : Happening L) : (x.alter channel bus).Ordered := by
  cases x with
  | subscribed c s =>
    simp only [alter]
    split
    · exact h.subscribe s.filter s.listener
    · exact h
  | unsubscribed c id =>
    simp only [alter]
    split
    · exact h.unsubscribe id
    · exact h
  | cleared c =>
    simp only [alter]
    split
    · exact bus.ordered_clear
    · exact h
  | _ => exact h

/-- Only a subscription takes a number. -/
theorem nextId_alter (x : Happening L) :
    (x.alter channel bus).nextId = bus.nextId + (x.numberFor? channel).toList.length := by
  cases x with
  | subscribed c s => by_cases hc : c = channel <;> simp [alter, numberFor?, hc, Bus.subscribe]
  | unsubscribed c id => by_cases hc : c = channel <;> simp [alter, numberFor?, hc, Bus.unsubscribe]
  | cleared c => by_cases hc : c = channel <;> simp [alter, numberFor?, hc, Bus.clear]
  | _ => rfl

theorem subscriptions_alter {x : Happening L}
    (h : ∀ number, x.numberFor? channel = some number → number = bus.nextId) :
    (x.alter channel bus).subscriptions = x.revise channel bus.subscriptions := by
  cases x with
  | subscribed c s =>
    by_cases hc : c = channel
    · have hid : s.id = bus.nextId := h s.id (by simp [numberFor?, hc])
      simp [alter, revise, hc, Bus.subscribe, ← hid]
    · simp [alter, revise, hc]
  | unsubscribed c id => by_cases hc : c = channel <;> simp [alter, revise, hc, Bus.unsubscribe]
  | cleared c => by_cases hc : c = channel <;> simp [alter, revise, hc, Bus.clear]
  | _ => rfl

end Happening

/-- The ledger of the buses. A subscription requires to be given the next number. -/
def busLedger : Ledger L (Channel → Bus L) where
  enter buses x channel := x.alter channel (buses channel)
  requires buses _ x _ := ∀ channel number, x.numberFor? channel = some number →
    number = (buses channel).nextId
  requires_append h _ := h

/-- The bus of a channel when so many happenings have come to pass, on a panel that was new. -/
def busAt (past : List (Happening L)) (channel : Channel) (moment : Nat) : Bus L :=
  busLedger.after (fun _ => {}) (past.take moment) channel

section

variable {buses : Channel → Bus L} {happenings : List (Happening L)} {base : Nat}

theorem ordered_after (h : ∀ channel, (buses channel).Ordered) (channel : Channel) :
    (busLedger.after buses happenings channel).Ordered := by
  induction happenings generalizing buses with
  | nil => exact h channel
  | cons x rest ih => exact ih fun c => Happening.ordered_alter (h c) x

/-- The numbers given out go up, from the one that comes next. -/
theorem numbers_of_settled (h : busLedger.Settled base buses happenings) (channel : Channel) :
    (happenings.filterMap (Happening.numberFor? channel)).Pairwise (· < ·) ∧
      ∀ number ∈ happenings.filterMap (Happening.numberFor? channel),
        (buses channel).nextId ≤ number := by
  induction happenings generalizing base buses with
  | nil => simp
  | cons x rest ih =>
    obtain ⟨hrest, hfrom⟩ := ih h.tail
    have hnext : (busLedger.enter buses x channel).nextId = _ := Happening.nextId_alter x
    rw [hnext] at hfrom
    cases hx : x.numberFor? channel with
    | none =>
      rw [List.filterMap_cons_none hx]
      exact ⟨hrest, fun n hn => by simpa [hx] using hfrom n hn⟩
    | some number =>
      obtain rfl := h.head channel number hx
      have hfrom' : ∀ n ∈ rest.filterMap (Happening.numberFor? channel),
          (buses channel).nextId < n := fun n hn =>
        Nat.lt_of_succ_le (by simpa [hx] using hfrom n hn)
      rw [List.filterMap_cons_some hx]
      exact ⟨List.pairwise_cons.2 ⟨hfrom', hrest⟩,
        List.forall_mem_cons.2 ⟨Nat.le_refl _, fun n hn => Nat.le_of_lt (hfrom' n hn)⟩⟩

/-- The subscriptions of the buses are at all times those that the ledger of emissions goes by. -/
theorem subscriptions_after (h : busLedger.Settled base buses happenings) (moment : Nat)
    (channel : Channel) :
    (busLedger.after buses (happenings.take moment) channel).subscriptions =
      emissionLedger.after (fun c => (buses c).subscriptions) (happenings.take moment) channel := by
  induction happenings generalizing base buses moment with
  | nil => simp
  | cons x rest ih =>
    cases moment with
    | zero => rfl
    | succ moment =>
      have hstep : (fun c => (busLedger.enter buses x c).subscriptions) =
          emissionLedger.enter (fun c => (buses c).subscriptions) x :=
        funext fun c => Happening.subscriptions_alter (h.head c)
      rw [List.take_succ_cons, Ledger.after_cons, Ledger.after_cons, ih h.tail, hstep]

end

/-! ## The buses of a panel -/

namespace Panel

variable {μ : Type} {p q : Panel L μ}

/-- The account of the buses. -/
def buses : Account L μ (Channel → Bus L) where
  toLedger := busLedger
  view := bus
  view_quiet h := h.bus
  view_record := bus_record

theorem buses_ignores {x : Happening L} (halter : ∀ channel bus, x.alter channel bus = bus)
    (hnumber : ∀ channel, x.numberFor? channel = none) :
    (buses (L := L) (μ := μ)).Ignores x where
  enter _ := funext fun channel => halter channel _
  requires _ _ _ channel number h := by
    rw [hnumber channel] at h
    cases h

theorem buses_ofBuses : (buses (L := L) (μ := μ)).OfBuses where
  view_eq h := h
  polled _ _ := buses_ignores (fun _ _ => rfl) fun _ => rfl
  pass _ := buses_ignores (fun _ _ => rfl) fun _ => rfl
  passEnd _ _ := buses_ignores (fun _ _ => rfl) fun _ => rfl
  registered _ _ := buses_ignores (fun _ _ => rfl) fun _ => rfl
  unregistered _ := buses_ignores (fun _ _ => rfl) fun _ => rfl

theorem buses_ignoresEmissions : (buses (L := L) (μ := μ)).IgnoresEmissions where
  emission _ _ _ _ := buses_ignores (fun _ _ => rfl) fun _ => rfl
  call _ _ _ := buses_ignores (fun _ _ => rfl) fun _ => rfl
  callEnd _ _ _ := buses_ignores (fun _ _ => rfl) fun _ => rfl
  emissionEnd _ _ := buses_ignores (fun _ _ => rfl) fun _ => rfl

theorem bus_subscribe (p : Panel L μ) (channel : Channel) (filter : Filter) (listener : L) :
    (p.subscribe channel filter listener).2.bus =
      (p.setBus channel ((p.bus channel).subscribe filter listener).2).bus :=
  bus_record _ (.subscribed channel ⟨(p.bus channel).nextId, filter, listener⟩)

theorem bus_unsubscribe (p : Panel L μ) (channel : Channel) (id : Nat) :
    (p.unsubscribe channel id).2.bus =
      (p.setBus channel ((p.bus channel).unsubscribe id).2).bus := by
  simp only [unsubscribe]
  split <;> exact bus_record _ (.unsubscribed channel id)

theorem bus_clear (p : Panel L μ) (channel : Channel) :
    (p.clear channel).bus = (p.setBus channel (p.bus channel).clear).bus :=
  bus_record _ (.cleared channel)

/-- A step with one happening that puts another bus in the place of one. -/
theorem holds_setBus {x : Happening L} {channel : Channel} {bus : Bus L}
    (hpast : q.past = p.past ++ [x]) (hbus : q.bus = (p.setBus channel bus).bus)
    (hs : x.subject? = none) (hself : x.alter channel (p.bus channel) = bus)
    (hother : ∀ other, other ≠ channel → x.alter other (p.bus other) = p.bus other)
    (hnumber : ∀ c number, x.numberFor? c = some number → number = (p.bus c).nextId) :
    buses.Holds [] p q := by
  refine Account.holds_single hpast (funext fun c => ?_) (by simp [hs]) hnumber
  change q.bus c = x.alter c (p.bus c)
  rw [hbus]
  by_cases hc : c = channel
  · subst hc
    rw [bus_setBus_self, hself]
  · rw [bus_setBus_other p hc, hother c hc]

theorem buses_permanent : Permanent ((buses (L := L) (μ := μ)).Holds []) := by
  refine buses_ofBuses.permanent buses_ignoresEmissions.emit
    (fun p channel filter listener => ?_) (fun p channel id => ?_) (fun p channel => ?_)
  · refine holds_setBus (past_subscribe p channel filter listener)
      (bus_subscribe p channel filter listener) rfl (if_pos rfl)
      (fun other hother => if_neg hother.symm) fun c number h => ?_
    by_cases hc : channel = c
    · subst hc
      exact (Option.some.inj ((if_pos rfl).symm.trans h)).symm
    · cases (if_neg hc).symm.trans h
  · exact holds_setBus (past_unsubscribe p channel id) (bus_unsubscribe p channel id) rfl
      (if_pos rfl) (fun other hother => if_neg hother.symm) nofun
  · exact holds_setBus (past_clear p channel) (bus_clear p channel) rfl
      (if_pos rfl) (fun other hother => if_neg hother.symm) nofun

theorem unsubscribe_answers (h : (p.bus channel).Ordered) (id : Nat) :
    (p.bus channel).Cancels id
      ((p.unsubscribe channel id).1, (p.unsubscribe channel id).2.bus channel) := by
  rw [bus_unsubscribe, bus_setBus_self]
  exact h.cancels id

theorem bus_new (setup : Setup) (memory : μ) :
    (Panel.new setup memory : Panel L μ).bus = fun _ => {} :=
  congrArg Core.bus (core_new setup memory)

/-- **Subscriptions stand in the order of their numbers, and no number is given out twice.** This
holds at every moment of a run, also while listeners subscribe, unsubscribe, clear the bus and emit
in turn. On every panel that is so, cancelling a number answers whether there is a subscription
of it, takes out that one, and leaves the others in their order. An emission calls so many
listeners as are counted for its name when it begins, each of them on the panel the one before
has left. -/
theorem run_subscriptions (conduct : Conduct L μ) (depth : Nat) (setup : Setup) (memory : μ)
    (steps : List (Step L μ)) (channel : Channel) :
    let react := conduct.react depth
    let p := (Panel.new setup memory).run react steps
    p.bus channel = busAt p.past channel p.past.length ∧
    (∀ moment, (busAt p.past channel moment).Ordered) ∧
    (p.past.filterMap (Happening.numberFor? channel)).Pairwise (· < ·) ∧
    (∀ moment cause name notice,
      p.past[moment]? = some (.emission cause channel name notice) →
      ((p.past.drop (moment + 1)).filterMap (Happening.callOf? moment)).length =
        (busAt p.past channel moment).listenerCount name) ∧
    ∀ q : Panel L μ,
      (∀ filter listener, (q.subscribe channel filter listener).2.past =
        q.past ++ [.subscribed channel ⟨(q.subscribe channel filter listener).1, filter,
          listener⟩]) ∧
      ((q.bus channel).Ordered → ∀ id,
        let answer := q.unsubscribe channel id
        (answer.1 = true ↔ ∃ s ∈ (q.bus channel).subscriptions, s.id = id) ∧
        (q.bus channel).Cancels id (answer.1, answer.2.bus channel) ∧
        ∀ other, other ≠ channel → answer.2.bus other = q.bus other) ∧
      ∀ cause name notice,
        (∃ meanwhile,
          (q.emit react cause channel name notice).2.past =
            q.past ++ .emission cause channel name notice :: meanwhile ∧
          (meanwhile.filterMap (Happening.callOf? q.past.length)).length =
            (q.bus channel).listenerCount name) ∧
        ∃ completions done, Proceeds react cause channel name notice q completions done ∧
          completions.length = (q.bus channel).listenerCount name := by
  intro react p
  obtain ⟨hsettled, hview⟩ := Account.run_settled buses_permanent conduct depth setup memory steps
  obtain ⟨hserved, -⟩ := Account.run_settled serves_permanent conduct depth setup memory steps
  have hstart : buses.view (Panel.new setup memory : Panel L μ) = fun _ => {} :=
    bus_new setup memory
  have hempty : emissions.view (Panel.new setup memory : Panel L μ) = fun _ => [] :=
    funext fun c => congrArg (fun b : Channel → Bus L => (b c).subscriptions) (bus_new setup memory)
  rw [hstart] at hsettled hview
  rw [hempty] at hserved
  refine ⟨?_, fun moment => ordered_after (fun _ => Bus.ordered_empty) channel,
    (numbers_of_settled hsettled channel).1, fun moment cause name notice hm => ?_,
    fun q => ⟨fun filter listener => past_subscribe .., fun hq id => ?_,
      fun cause name notice => ?_⟩⟩
  · rw [busAt, List.take_length]
    exact congrFun hview channel
  · obtain ⟨delivered, hcalled⟩ := hserved moment _ hm
    rw [Nat.zero_add] at hcalled
    rw [hcalled.calls, List.length_map, Bus.listenerCount, List.countP_eq_length_filter, busAt,
      subscriptions_after hsettled]
    rfl
  · have hanswer := unsubscribe_answers hq id
    refine ⟨hanswer.fst_iff, hanswer, fun other hother => ?_⟩
    rw [bus_unsubscribe, bus_setBus_other q hother]
  · obtain ⟨meanwhile, hpast, h⟩ :=
      emitted_emit (serves_permanent.reaction conduct depth) q cause channel name notice
    obtain ⟨completions, done, hproceeds⟩ :=
      proceeds_emit (grows_permanent.reaction conduct depth) q cause channel name notice
    refine ⟨⟨meanwhile, hpast, ?_⟩, completions, done, hproceeds, ?_⟩
    · rw [h.served.calls, List.length_map, Bus.length_recipients]
    · rw [hproceeds.calls.length_eq, Bus.length_recipients]

end Panel

end MachinePanel
