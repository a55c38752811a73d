/-
Names that a binder generates. A generated name is that of a family, a point, and a number in
decimal; what an element adds to it for its pins does not go on with a digit. So the family and the
number can be read off the name of every such pin (`numbered_unique`). The numbers of a family only
go up, and one that is taken is not given again, whether or not the element is made in the end.
Hence two elements with generated names never share a pin (`generated_disjoint`).
-/
import MachinePanel.Proofs.Blueprints
import Mathlib.Data.List.Basic

namespace MachinePanel

/-! ## Reading a generated name -/

namespace PinName

/-- The text does not begin with a digit. -/
def Separated (s : String) : Prop :=
  ∀ c ∈ s.toList.head?, c.isDigit = false

instance (s : String) : Decidable (Separated s) :=
  decidable_of_iff (s.toList.head?.all (!·.isDigit) = true) <| by
    rw [Option.all_eq_true]
    exact forall₂_congr fun c _ => iff_of_eq (Bool.not_eq_true' _)

/-- The name begins with this number of a family, and the number ends there. -/
def Numbered (family : String) (n : Nat) (name : String) : Prop :=
  ∃ rest, Separated rest ∧ name = family ++ "." ++ toString n ++ rest

variable {s t family family' name : String} {n n' : Nat}

theorem separated_empty : Separated "" := nofun

theorem separated_dot (s : String) : Separated ("." ++ s) := by
  intro c hc
  obtain rfl : '.' = c := by simpa using hc
  rfl

theorem Separated.append (hs : Separated s) (ht : Separated t) : Separated (s ++ t) := by
  intro c hc
  rw [String.toList_append, List.head?_append] at hc
  cases hhead : s.toList.head? with
  | none =>
    rw [hhead] at hc
    exact ht c hc
  | some d =>
    rw [hhead] at hc
    exact hs c (hhead ▸ hc)

/-- The digits of a number end where another character comes. -/
theorem takeWhile_digits (n : Nat) (hs : Separated s) :
    (Nat.toDigits 10 n ++ s.toList).takeWhile Char.isDigit = Nat.toDigits 10 n := by
  have hdigits : ∀ c ∈ Nat.toDigits 10 n, c.isDigit = true := fun c hc =>
    Nat.isDigit_of_mem_toDigits (by decide) (by decide) hc
  rw [List.takeWhile_append_of_pos hdigits]
  cases hlist : s.toList with
  | nil => simp
  | cons c rest =>
    have hc : c.isDigit = false := hs c (by rw [hlist]; rfl)
    rw [List.takeWhile_cons_of_neg (by simp [hc]), List.append_nil]

/-- A family ends where the first point comes. -/
theorem takeWhile_family (hfamily : '.' ∉ family.toList) (cs : List Char) :
    (family.toList ++ (".".toList ++ cs)).takeWhile (· != '.') = family.toList := by
  have hchars : ∀ c ∈ family.toList, (c != '.') = true := fun c hc => by
    simpa using ne_of_mem_of_not_mem hc hfamily
  rw [List.takeWhile_append_of_pos hchars]
  simp

/-- **The family and the number can be read off a name.** -/
theorem numbered_unique (hfamily : '.' ∉ family.toList) (hfamily' : '.' ∉ family'.toList)
    (h : Numbered family n name) (h' : Numbered family' n' name) : family = family' ∧ n = n' := by
  obtain ⟨rest, hrest, rfl⟩ := h
  obtain ⟨rest', hrest', heq⟩ := h'
  have hlist := congrArg String.toList heq
  simp only [String.toList_append, List.append_assoc] at hlist
  obtain rfl : family = family' := by
    have htake := congrArg (List.takeWhile (· != '.')) hlist
    rw [takeWhile_family hfamily, takeWhile_family hfamily'] at htake
    exact String.toList_injective htake
  refine ⟨rfl, ?_⟩
  have hnumbers := List.append_cancel_left (List.append_cancel_left hlist)
  simp only [Nat.toString_eq_repr, Nat.toList_repr] at hnumbers
  have hdigits := congrArg (List.takeWhile Char.isDigit) hnumbers
  rw [takeWhile_digits n hrest, takeWhile_digits n' hrest'] at hdigits
  have hread := congrArg (Nat.ofDigitChars 10 · 0) hdigits
  simpa only [Nat.ofDigitChars_ten_toDigits] using hread

end PinName

open PinName

namespace Tag

variable {props : Props} {tag : Tag} {naming : Naming} {base : String} {pin : Handle}

/-- No family has a point in its name, and no ending goes on with the number before it. -/
theorem naming_separated (h : tag.naming props = some naming) :
    '.' ∉ naming.family.toList ∧ Separated naming.ending := by
  cases tag with
  | label =>
    simp only [Tag.naming] at h
    split at h
    · cases h
      decide
    · cases h
  | vbox | hbox | labelframe | tabs | table => cases h
  | _ =>
    cases h
    decide

/-- The name of a pin is the base name, or goes on from it with another character than a digit. -/
theorem exists_of_mem_blueprint (h : pin ∈ tag.blueprint props base) :
    ∃ rest, Separated rest ∧ pin.name = base ++ rest := by
  have hself (direction : Direction) (type : ScalarType) :
      ∃ rest, Separated rest ∧ (Handle.mk base direction type).name = base ++ rest :=
    ⟨"", separated_empty, String.append_empty.symm⟩
  have hdisable (hpin : pin ∈ (disablePin base props).toList) :
      ∃ rest, Separated rest ∧ pin.name = base ++ rest := by
    unfold disablePin at hpin
    split at hpin
    · rw [List.mem_singleton.1 hpin]
      exact ⟨".disable", by decide, rfl⟩
    · cases hpin
  cases tag with
  | led | rectled | button =>
    obtain rfl | hpin := List.mem_cons.1 h
    · exact hself _ _
    · exact hdisable hpin
  | label => exact hdisable h
  | timer =>
    obtain rfl | hpin := List.mem_cons.1 h
    · exact ⟨".reset", by decide, rfl⟩
    · rw [List.mem_singleton.1 hpin]
      exact ⟨".run", by decide, rfl⟩
  | scale =>
    obtain rfl | hpin := List.mem_cons.1 h
    · exact ⟨"-i", by decide, rfl⟩
    · rw [List.mem_singleton.1 hpin]
      exact ⟨"-f", by decide, rfl⟩
  | radiobutton =>
    obtain ⟨choice, -, rfl⟩ := List.mem_map.1 h
    exact ⟨"." ++ choice, separated_dot choice, String.append_assoc⟩
  | vbox | hbox | labelframe | tabs | table => cases h
  | _ =>
    rw [List.mem_singleton.1 h]
    exact hself _ _

/-- An element that needs no name has no pins. -/
theorem blueprint_eq_nil (h : tag.naming props = none) (base : String) :
    tag.blueprint props base = [] := by
  cases tag with
  | label =>
    simp only [Tag.naming] at h
    split at h
    · cases h
    · next hdisable => simp [blueprint, disablePin, hdisable]
  | vbox | hbox | labelframe | tabs | table => rfl
  | _ => cases h

end Tag

/-! ## Taking numbers -/

namespace Binder

variable {family other : String}

theorem lookup_setCounter_self (family : String) (n : Nat) (counters : List (String × Nat)) :
    (setCounter family n counters).lookup family = some n := by
  induction counters with
  | nil => simp [setCounter]
  | cons c rest ih =>
    obtain ⟨f, k⟩ := c
    unfold setCounter
    by_cases hf : f = family
    · rw [if_pos hf, List.lookup_cons, hf]
      simp
    · have hne : (family == f) = false := by simpa using Ne.symm hf
      rw [if_neg hf, List.lookup_cons, hne]
      exact ih

theorem lookup_setCounter_other (hother : other ≠ family) (n : Nat)
    (counters : List (String × Nat)) :
    (setCounter family n counters).lookup other = counters.lookup other := by
  induction counters with
  | nil => simp [setCounter, hother]
  | cons c rest ih =>
    obtain ⟨f, k⟩ := c
    unfold setCounter
    by_cases hf : f = family
    · subst hf
      have hne : (other == f) = false := by simpa using hother
      rw [if_pos rfl, List.lookup_cons, List.lookup_cons, hne]
    · rw [if_neg hf, List.lookup_cons, List.lookup_cons, ih]

/-- To take a name uses up the number. -/
theorem counter_nextName (b : Binder) (family other : String) :
    (b.nextName family).2.counter other =
      if other = family then b.counter family + 1 else b.counter other := by
  unfold nextName counter
  split
  · next h => rw [h, lookup_setCounter_self, Option.getD_some]
  · next h => rw [lookup_setCounter_other h]

/-- Numbers are never given back. -/
theorem counter_le_baseName (b : Binder) (given : Option String) (naming : Naming)
    (other : String) : b.counter other ≤ (b.baseName given naming).2.counter other := by
  cases given with
  | some name => exact Nat.le_refl _
  | none =>
    change _ ≤ (b.nextName naming.family).2.counter other
    rw [counter_nextName]
    split
    · next h =>
      rw [h]
      exact Nat.le_succ _
    · exact Nat.le_refl _

end Binder

namespace Binding

/-- What may happen at a binder: an element is made, a name is taken for something else, or pins
come and go in the store and on the list. -/
inductive Job where
  | make (tag : String) (props : Props) (now : Nanos)
  | takeName (given : Option String) (naming : Naming)
  | elsewhere (store : PinStore) (created : List Handle)

/-- An element with the properties it was made from. -/
structure Product where
  props : Props
  element : Element

/-- The names of the pins of an element. -/
def Product.names (p : Product) : List String :=
  p.element.pins.map Handle.name

/-- Does a job, and gives the element if one has been made. -/
def perform (b : Binding) : Job → Option Product × Binding
  | .make tag props now =>
    let (result, b) := b.build tag props now
    (result.toOption.map (⟨props, ·⟩), b)
  | .takeName given naming => (none, { b with binder := (b.binder.baseName given naming).2 })
  | .elsewhere store created => (none, { b with store, binder := { b.binder with created } })

/-- The elements that have been made, in order. -/
def products (b : Binding) : List Job → List Product
  | [] => []
  | job :: rest => (b.perform job).1.toList ++ (b.perform job).2.products rest

variable {b : Binding} {tag : String} {props : Props} {now : Nanos} {e : Element}

theorem counters_bindPins (b : Binding) (pins : List Handle) :
    (b.bindPins pins).2.binder.counters = b.binder.counters := by
  induction pins generalizing b with
  | nil => rfl
  | cons pin rest ih =>
    rw [bindPins]
    split
    · rfl
    · next b₁ hpin =>
      rw [ih]
      unfold bindPin at hpin
      split at hpin
      · cases hpin
      · cases hpin
        rfl

theorem counters_realize (b : Binding) (t : Tag) (design : Design) (props : Props) (now : Nanos) :
    (b.realize t design props now).2.binder.counters =
      (b.takeName props design.naming).2.binder.counters := by
  have hpins := counters_bindPins (b.takeName props design.naming).2
    (t.blueprint props (b.takeName props design.naming).1)
  simp only [realize]
  split
  all_goals
    next heq =>
    rw [heq] at hpins
    exact hpins

theorem counter_le_takeName (b : Binding) (props : Props) (naming : Option Naming)
    (family : String) :
    b.binder.counter family ≤ (b.takeName props naming).2.binder.counter family := by
  cases naming with
  | none => exact Nat.le_refl _
  | some naming => exact b.binder.counter_le_baseName props.pinName naming family

theorem counter_le_build (b : Binding) (tag : String) (props : Props) (now : Nanos)
    (family : String) :
    b.binder.counter family ≤ (b.build tag props now).2.binder.counter family := by
  unfold build
  split
  · exact Nat.le_refl _
  · split
    · exact Nat.le_refl _
    · next design _ =>
      rw [Binder.counter, Binder.counter, counters_realize]
      exact b.counter_le_takeName props design.naming family

theorem counter_le_perform (b : Binding) (job : Job) (family : String) :
    b.binder.counter family ≤ (b.perform job).2.binder.counter family := by
  cases job with
  | make tag props now => exact b.counter_le_build tag props now family
  | takeName given naming => exact b.binder.counter_le_baseName given naming family
  | elsewhere store created => exact Nat.le_refl _

/-! ## Names with taken numbers -/

/-- The names have numbers of their families from here on. -/
def NumbersFrom (b : Binding) (names : List String) : Prop :=
  ∀ name ∈ names, ∃ family n, '.' ∉ family.toList ∧ Numbered family n name ∧
    b.binder.counter family ≤ n

/-- The names have numbers of their families that were taken before. -/
def NumbersBefore (b : Binding) (names : List String) : Prop :=
  ∀ name ∈ names, ∃ family n, '.' ∉ family.toList ∧ Numbered family n name ∧
    n < b.binder.counter family

/-- Names with numbers that were taken before are none of those with numbers from here on. -/
theorem NumbersBefore.disjoint {names names' : List String} (h : b.NumbersBefore names)
    (h' : b.NumbersFrom names') : names.Disjoint names' := by
  intro name hname hname'
  obtain ⟨family, n, hfamily, hnumbered, hlt⟩ := h name hname
  obtain ⟨family', n', hfamily', hnumbered', hle⟩ := h' name hname'
  obtain ⟨rfl, rfl⟩ := numbered_unique hfamily hfamily' hnumbered hnumbered'
  exact absurd hlt (Nat.not_lt.2 hle)

/-- **An element without a name of its own takes the next number of its family**, and all its pins
have it in their names. -/
theorem numbers_build (hbuild : (b.build tag props now).1 = .ok e) (hname : props.pinName = none) :
    b.NumbersFrom (e.pins.map Handle.name) ∧
      (b.build tag props now).2.NumbersBefore (e.pins.map Handle.name) := by
  obtain ⟨t, design, -, hdesign, heq⟩ := exists_of_build_ok hbuild
  rw [heq] at hbuild
  obtain ⟨rfl, -, -⟩ := realize_ok hbuild
  obtain ⟨hnaming, hpins⟩ := Design.pins_eq_blueprint hdesign
  rw [hpins]
  cases hn : design.naming with
  | none =>
    rw [Tag.blueprint_eq_nil (hnaming ▸ hn)]
    exact ⟨nofun, nofun⟩
  | some naming =>
    obtain ⟨hfamily, hending⟩ := Tag.naming_separated (hnaming ▸ hn)
    let n := b.binder.counter naming.family
    have hbase : (b.takeName props (some naming)).1 =
        naming.family ++ "." ++ toString n ++ naming.ending := by
      simp only [takeName, Binder.baseName, hname]
      rfl
    have hcounter : (b.build tag props now).2.binder.counter naming.family = n + 1 := by
      have hcounters := b.counters_realize t design props now
      rw [hn] at hcounters
      rw [heq, Binder.counter, hcounters]
      simp only [takeName, Binder.baseName, hname]
      exact (b.binder.counter_nextName naming.family naming.family).trans (if_pos rfl)
    have hnumbered :
        ∀ name ∈ (t.blueprint props (b.takeName props (some naming)).1).map Handle.name,
          Numbered naming.family n name := by
      intro name hmem
      obtain ⟨pin, hpin, rfl⟩ := List.mem_map.1 hmem
      obtain ⟨rest, hrest, hpinName⟩ := Tag.exists_of_mem_blueprint hpin
      exact ⟨naming.ending ++ rest, hending.append hrest, by
        rw [hpinName, hbase, String.append_assoc]⟩
    refine ⟨fun name hmem => ?_, fun name hmem => ?_⟩
    · exact ⟨_, n, hfamily, hnumbered name hmem, Nat.le_refl _⟩
    · exact ⟨_, n, hfamily, hnumbered name hmem, hcounter ▸ Nat.lt_succ_self n⟩

theorem NumbersFrom.of_perform {job : Job} {names : List String}
    (h : (b.perform job).2.NumbersFrom names) : b.NumbersFrom names := by
  intro name hmem
  obtain ⟨family, n, hfamily, hnumbered, hle⟩ := h name hmem
  exact ⟨family, n, hfamily, hnumbered, Nat.le_trans (b.counter_le_perform job family) hle⟩

/-- What a job makes has been made for its tag. -/
theorem exists_of_perform {job : Job} {p : Product} (h : (b.perform job).1 = some p) :
    ∃ tag now, (b.build tag p.props now).1 = .ok p.element ∧
      (b.perform job).2 = (b.build tag p.props now).2 := by
  cases job with
  | make tag props now =>
    simp only [perform] at h
    cases hbuild : (b.build tag props now).1 with
    | error err =>
      rw [hbuild] at h
      cases h
    | ok e =>
      rw [hbuild] at h
      cases h
      exact ⟨tag, now, hbuild, rfl⟩
  | takeName given naming => cases h
  | elsewhere store created => cases h

theorem numbersFrom_products (b : Binding) (jobs : List Job) :
    ∀ p ∈ b.products jobs, p.props.pinName = none → b.NumbersFrom p.names := by
  intro p hp hname
  induction jobs generalizing b with
  | nil => cases hp
  | cons job rest ih =>
    obtain hp | hp := List.mem_append.1 hp
    · obtain ⟨tag, now, hbuild, -⟩ := exists_of_perform (Option.mem_toList.1 hp)
      exact (numbers_build hbuild hname).1
    · exact (ih _ hp).of_perform

/-- **Elements with generated names never share a pin**, whatever their tags and properties are and
whatever else is made or fails to be made by the same binder before, in between and after. -/
theorem generated_disjoint (b : Binding) (jobs : List Job) :
    (b.products jobs).Pairwise fun p p' =>
      p.props.pinName = none → p'.props.pinName = none → p.names.Disjoint p'.names := by
  induction jobs generalizing b with
  | nil => exact List.Pairwise.nil
  | cons job rest ih =>
    rw [products, List.pairwise_append]
    refine ⟨?_, ih _, fun p hp p' hp' hname hname' => ?_⟩
    · cases (b.perform job).1 with
      | none => exact List.Pairwise.nil
      | some p => exact List.pairwise_singleton _ p
    · obtain ⟨tag, now, hbuild, hresult⟩ := exists_of_perform (Option.mem_toList.1 hp)
      have hbefore := (numbers_build hbuild hname).2
      rw [← hresult] at hbefore
      exact hbefore.disjoint (numbersFrom_products _ rest p' hp' hname')

-- The number of an element that could not be made is not given again.
example : ((⟨⟨[("led.1", ⟨.output, .bit false⟩)]⟩, {}, []⟩ : Binding).products
    [.make "led" {} 0, .make "rectled" {} 0, .make "led" { disablePin := true } 0]).map
      Product.names = [["led.0"], ["led.2", "led.2.disable"]] := by
  decide +kernel

end Binding

end MachinePanel
