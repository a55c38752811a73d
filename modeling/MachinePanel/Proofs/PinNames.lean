/-
The names that pins may have. A name is one or more components with single points between them, and
a component is not empty and has none but ASCII letters, digits, underscores and hyphens (`Dotted`).
The check of a name, which takes a text apart at its points, passes just these
(`isValid_iff_dotted`).

To put a point between two names, or component characters behind a name, gives a name again. That
is all that elements do to their base names, so that an element whose base name is in order asks for
pins with names only. The one exception is a radio button, which takes the ends of the names of its
pins from its choices, and a choice may be any text (`build_names`).
-/
import MachinePanel.Proofs.GeneratedNames

namespace MachinePanel

namespace PinName

/-! ## The grammar -/

/-- The characters of a component: ASCII letters and digits, the underscore and the hyphen. -/
def NameChar (c : Char) : Prop :=
  ('a' ≤ c ∧ c ≤ 'z') ∨ ('A' ≤ c ∧ c ≤ 'Z') ∨ ('0' ≤ c ∧ c ≤ '9') ∨ c = '_' ∨ c = '-'

/-- A non-empty sequence of such characters. -/
structure Component (s : String) : Prop where
  ne_empty : s ≠ ""
  chars : ∀ c ∈ s.toList, NameChar c

/-- One or more components with single points between them. -/
inductive Dotted : String → Prop
  | single {s : String} (hs : Component s) : Dotted s
  | join {s t : String} (hs : Component s) (ht : Dotted t) : Dotted (s ++ "." ++ t)

variable {s t : String} {cs : List Char}

theorem isComponentChar_iff (c : Char) : isComponentChar c = true ↔ NameChar c := by
  have hupper : c.isUpper = decide ('A' ≤ c ∧ c ≤ 'Z') := rfl
  have hlower : c.isLower = (decide ('a' ≤ c) && decide (c ≤ 'z')) := rfl
  have hdigit : c.isDigit = (decide ('0' ≤ c) && decide (c ≤ '9')) := rfl
  have hchar : isComponentChar c =
      (c.isUpper || c.isLower || c.isDigit || c == '_' || c == '-') := rfl
  simp only [hchar, hupper, hlower, hdigit, NameChar, Bool.or_eq_true, Bool.and_eq_true,
    decide_eq_true_eq, beq_iff_eq]
  tauto

theorem not_nameChar_point : ¬ NameChar '.' := by
  rw [← isComponentChar_iff]
  decide

theorem isComponent_iff (s : String) : isComponent s.toList = true ↔ Component s := by
  have hempty : s.toList.isEmpty = true ↔ s = "" := by
    rw [List.isEmpty_iff, String.toList_eq_nil_iff]
  simp only [isComponent, Bool.and_eq_true, Bool.not_eq_true', Bool.eq_false_iff, ne_eq, hempty,
    List.all_eq_true, isComponentChar_iff]
  exact ⟨fun h => ⟨h.1, h.2⟩, fun h => ⟨h.ne_empty, h.chars⟩⟩

/-! ## The check -/

/-- A text is taken apart at each of its points. -/
theorem components_append (a b : List Char) :
    components (a ++ '.' :: b) = components a ++ components b := by
  induction a with
  | nil => simp [components]
  | cons c a ih =>
    rw [List.cons_append, components, components, ih]
    split
    · rfl
    · cases h : components a with
      | nil => exact absurd h (components_ne_nil a)
      | cons first rest => rfl

theorem components_of_not_mem (h : '.' ∉ cs) : components cs = [cs] := by
  induction cs with
  | nil => rfl
  | cons c cs ih =>
    rw [List.mem_cons, not_or] at h
    rw [components, if_neg (Ne.symm h.1), ih h.2]

/-- **Two texts with a point between them are a name if both are names.** -/
theorem isValid_join (s t : String) :
    isValid (s ++ "." ++ t) = true ↔ isValid s = true ∧ isValid t = true := by
  have hlist : (s ++ "." ++ t).toList = s.toList ++ '.' :: t.toList := by simp
  rw [isValid, hlist, components_append, List.all_append, Bool.and_eq_true]
  rfl

theorem isValid_iff_component (h : '.' ∉ s.toList) : isValid s = true ↔ Component s := by
  rw [isValid, components_of_not_mem h, List.all_cons, List.all_nil, Bool.and_true]
  exact isComponent_iff s

theorem Component.isValid (h : Component s) : isValid s = true :=
  (isValid_iff_component fun hmem => not_nameChar_point (h.chars '.' hmem)).2 h

theorem Dotted.isValid (h : Dotted s) : isValid s = true := by
  induction h with
  | single hs => exact hs.isValid
  | join hs _ ih => exact (isValid_join _ _).2 ⟨hs.isValid, ih⟩

/-- What passes the check is a name: it ends with the first point, or goes on behind it. -/
theorem dotted_of_isValid (h : isValid s = true) : Dotted s := by
  induction hlength : s.toList.length using Nat.strongRecOn generalizing s with
  | ind n ih =>
    by_cases hpoint : '.' ∈ s.toList
    · obtain ⟨front, back, hsplit, hfront⟩ := List.eq_append_cons_of_mem hpoint
      have hs : s = String.ofList front ++ "." ++ String.ofList back := by
        apply String.toList_injective
        simp [hsplit]
      rw [hs, isValid_join] at h
      have hshort : (String.ofList back).toList.length < n := by
        rw [String.toList_ofList, ← hlength, hsplit, List.length_append, List.length_cons]
        omega
      have hcomponent : Component (String.ofList front) :=
        (isValid_iff_component (by rwa [String.toList_ofList])).1 h.1
      rw [hs]
      exact .join hcomponent (ih _ hshort h.2 rfl)
    · exact .single ((isValid_iff_component hpoint).1 h)

/-- **A text passes the check if and only if it is a name.** -/
theorem isValid_iff_dotted (s : String) : isValid s = true ↔ Dotted s :=
  ⟨dotted_of_isValid, Dotted.isValid⟩

/-! ## Longer names -/

/-- Characters behind a component go on with it. -/
theorem Component.append (h : Component s) (ht : ∀ c ∈ t.toList, NameChar c) :
    Component (s ++ t) := by
  refine ⟨fun hempty => h.ne_empty ?_, fun c hc => ?_⟩
  · exact (String.append_eq_empty_iff.1 hempty).1
  · rw [String.toList_append, List.mem_append] at hc
    exact hc.elim (h.chars c) (ht c)

theorem Dotted.append (h : Dotted s) (ht : ∀ c ∈ t.toList, NameChar c) : Dotted (s ++ t) := by
  induction h with
  | single hs => exact .single (hs.append ht)
  | join hs _ ih =>
    rw [String.append_assoc]
    exact .join hs ih

/-- To put this behind a name gives a name. -/
def Extends (rest : String) : Prop :=
  ∀ name, isValid name = true → isValid (name ++ rest) = true

theorem extends_empty : Extends "" := by
  intro name hname
  rwa [String.append_empty]

theorem extends_point (ht : isValid t = true) : Extends ("." ++ t) := by
  intro name hname
  rw [← String.append_assoc, isValid_join]
  exact ⟨hname, ht⟩

theorem extends_chars (ht : t.toList.all isComponentChar = true) : Extends t := by
  intro name hname
  refine (Dotted.append ((isValid_iff_dotted name).1 hname) fun c hc => ?_).isValid
  exact (isComponentChar_iff c).1 (List.all_eq_true.1 ht c hc)

theorem isValid_toString (n : Nat) : isValid (toString n) = true := by
  rw [Nat.toString_eq_repr]
  refine Component.isValid ⟨fun hempty => ?_, fun c hc => ?_⟩
  · have hlist := congrArg String.toList hempty
    rw [Nat.toList_repr] at hlist
    exact Nat.toDigits_ne_nil hlist
  · rw [Nat.toList_repr] at hc
    have hdigit : c.isDigit = true := Nat.isDigit_of_mem_toDigits (by decide) (by decide) hc
    rw [← isComponentChar_iff]
    simp [isComponentChar, Char.isAlphanum, hdigit]

end PinName

open PinName

/-! ## The names of an element -/

namespace Tag

variable {props : Props} {tag : Tag} {naming : Naming} {base : String} {pin : Handle}

/-- The names of families are names, and their endings can be put behind a name. -/
theorem naming_extends (h : tag.naming props = some naming) :
    isValid naming.family = true ∧ Extends naming.ending := by
  cases tag with
  | label =>
    simp only [Tag.naming] at h
    split at h
    · cases h
      exact ⟨by decide, extends_empty⟩
    · cases h
  | meter =>
    cases h
    exact ⟨by decide, extends_point (t := "value") (by decide)⟩
  | dial =>
    cases h
    exact ⟨by decide, extends_point (t := "out") (by decide)⟩
  | jogwheel =>
    cases h
    exact ⟨by decide, extends_point (t := "count") (by decide)⟩
  | vbox | hbox | labelframe | tabs | table => cases h
  | _ =>
    cases h
    exact ⟨by decide, extends_empty⟩

/-- An element puts nothing behind its base name that is not in order, but for the choices of a
radio button. -/
theorem extends_of_mem_blueprint (h : pin ∈ tag.blueprint props base) :
    (∃ rest, Extends rest ∧ pin.name = base ++ rest) ∨
      tag = .radiobutton ∧ ∃ choice ∈ props.choices, pin.name = base ++ "." ++ choice := by
  have hself (direction : Direction) (type : ScalarType) :
      ∃ rest, Extends rest ∧ (Handle.mk base direction type).name = base ++ rest :=
    ⟨"", extends_empty, String.append_empty.symm⟩
  have hdisable (hpin : pin ∈ (disablePin base props).toList) :
      ∃ rest, Extends rest ∧ pin.name = base ++ rest := by
    unfold disablePin at hpin
    split at hpin
    · rw [List.mem_singleton.1 hpin]
      exact ⟨".disable", extends_point (t := "disable") (by decide), rfl⟩
    · cases hpin
  cases tag with
  | led | rectled | button =>
    obtain rfl | hpin := List.mem_cons.1 h
    · exact .inl (hself _ _)
    · exact .inl (hdisable hpin)
  | label => exact .inl (hdisable h)
  | timer =>
    obtain rfl | hpin := List.mem_cons.1 h
    · exact .inl ⟨".reset", extends_point (t := "reset") (by decide), rfl⟩
    · rw [List.mem_singleton.1 hpin]
      exact .inl ⟨".run", extends_point (t := "run") (by decide), rfl⟩
  | scale =>
    obtain rfl | hpin := List.mem_cons.1 h
    · exact .inl ⟨"-i", extends_chars (by decide), rfl⟩
    · rw [List.mem_singleton.1 hpin]
      exact .inl ⟨"-f", extends_chars (by decide), rfl⟩
  | radiobutton =>
    obtain ⟨choice, hchoice, rfl⟩ := List.mem_map.1 h
    exact .inr ⟨rfl, choice, hchoice, rfl⟩
  | vbox | hbox | labelframe | tabs | table => cases h
  | _ =>
    rw [List.mem_singleton.1 h]
    exact .inl (hself _ _)

end Tag

namespace Binding

variable {b : Binding} {tag : Tag} {props : Props} {now : Nanos} {naming : Naming} {name : String}

/-- A base name that is given or generated is a name, if the one that is given is. -/
theorem isValid_takeName (hgiven : ∀ given, props.pinName = some given → isValid given = true)
    (hnaming : tag.naming props = some naming) :
    isValid (b.takeName props (some naming)).1 = true := by
  simp only [takeName, Binder.baseName]
  cases hname : props.pinName with
  | some given => exact hgiven given hname
  | none =>
    obtain ⟨hfamily, hending⟩ := Tag.naming_extends hnaming
    exact hending _ ((isValid_join _ _).2 ⟨hfamily, isValid_toString _⟩)

theorem eq_of_create_invalidName {store : PinStore} {pin : Handle}
    (h : store.create pin = .error (.invalidName name)) :
    name = pin.name ∧ isValid name = false := by
  unfold PinStore.create at h
  split at h
  · next hvalid =>
    cases h
    exact ⟨rfl, by simpa using hvalid⟩
  · split at h
    · cases h
    · split at h
      · cases h
      · split at h <;> cases h

/-- A name that is refused is that of a pin of the element. -/
theorem exists_of_build_invalidName
    (h : (b.build tag.name props now).1 = .error (.pin (.invalidName name))) :
    isValid name = false ∧
      ∃ pin ∈ tag.blueprint props (b.takeName props (tag.naming props)).1, pin.name = name := by
  obtain ⟨made, refused, rest, hpins, hstopped⟩ := (build_failed h).refused _ rfl
  obtain ⟨rfl, hinvalid⟩ := eq_of_create_invalidName hstopped.error
  have hrefused : refused ∈ b.plannedPins tag.name props now := by
    rw [hpins]
    simp
  refine ⟨hinvalid, refused, ?_, rfl⟩
  unfold plannedPins at hrefused
  rw [Tag.ofName?_name] at hrefused
  simp only at hrefused
  split at hrefused
  · cases hrefused
  · next design hdesign =>
    obtain ⟨hnaming, hblueprint⟩ := Design.pins_eq_blueprint hdesign
    rwa [hblueprint, hnaming] at hrefused

theorem isValid_of_create {store store' : PinStore} {pin : Handle}
    (h : store.create pin = .ok store') : isValid pin.name = true := by
  unfold PinStore.create at h
  split at h
  · cases h
  · next hvalid => simpa using hvalid

theorem isValid_of_bindPins {pins : List Handle} (h : (b.bindPins pins).1 = none) :
    ∀ pin ∈ pins, isValid pin.name = true := by
  induction pins generalizing b with
  | nil => nofun
  | cons pin rest ih =>
    rw [bindPins] at h
    split at h
    · cases h
    · next b₁ hpin =>
      have hvalid : isValid pin.name = true := by
        unfold bindPin at hpin
        split at hpin
        · cases hpin
        · next hcreate => exact isValid_of_create hcreate
      exact List.forall_mem_cons.2 ⟨hvalid, ih h⟩

theorem isValid_of_build {e : Element} (h : (b.build tag.name props now).1 = .ok e) :
    ∀ pin ∈ e.pins, isValid pin.name = true := by
  obtain ⟨t, design, -, hdesign, hbuild⟩ := exists_of_build_ok h
  rw [hbuild] at h
  simp only [realize] at h
  split at h
  · next heq =>
    cases h
    rw [(Design.pins_eq_blueprint hdesign).2]
    exact isValid_of_bindPins (congrArg Prod.fst heq)
  · cases h

/-- **Pins have names.** A text passes the check if and only if it is one or more components with
single points between them, and two names with a point between them are a name. The pins of every
element that is made have names. One whose base name is generated, or is a name, is never refused
for a name that is none, unless it is a radio button and the name comes from a choice that is
none. -/
theorem build_names :
    (∀ s, isValid s = true ↔ Dotted s) ∧
    (∀ s t, isValid s = true → isValid t = true → isValid (s ++ "." ++ t) = true) ∧
    ∀ (b : Binding) (tag : Tag) (props : Props) (now : Nanos),
      (∀ e, (b.build tag.name props now).1 = .ok e → ∀ pin ∈ e.pins, Dotted pin.name) ∧
      ((∀ given, props.pinName = some given → Dotted given) →
        ∀ name, (b.build tag.name props now).1 = .error (.pin (.invalidName name)) →
          tag = .radiobutton ∧ ∃ choice ∈ props.choices, ¬ Dotted choice ∧
            name = (b.takeName props (some ⟨"radiobutton", ""⟩)).1 ++ "." ++ choice) := by
  refine ⟨isValid_iff_dotted, fun s t hs ht => (isValid_join s t).2 ⟨hs, ht⟩,
    fun b tag props now => ⟨fun e he pin hpin => ?_, fun hgiven name hname => ?_⟩⟩
  · exact (isValid_iff_dotted _).1 (isValid_of_build he pin hpin)
  obtain ⟨hinvalid, pin, hpin, rfl⟩ := exists_of_build_invalidName hname
  have hbase : ∀ naming, tag.naming props = some naming →
      isValid (b.takeName props (some naming)).1 = true := fun naming =>
    isValid_takeName fun given h => (hgiven given h).isValid
  cases hnaming : tag.naming props with
  | none =>
    -- Without a base name no pin is asked for.
    rw [hnaming, Tag.blueprint_eq_nil hnaming] at hpin
    cases hpin
  | some naming =>
    rw [hnaming] at hpin
    obtain ⟨rest, hrest, hpinName⟩ | ⟨rfl, choice, hchoice, hpinName⟩ :=
      Tag.extends_of_mem_blueprint hpin
    · have hvalid := hrest _ (hbase naming hnaming)
      rw [← hpinName, hinvalid] at hvalid
      cases hvalid
    · cases hnaming
      refine ⟨rfl, choice, hchoice, fun hdotted => ?_, hpinName⟩
      have hvalid := (isValid_join _ _).2 ⟨hbase _ rfl, hdotted.isValid⟩
      rw [← hpinName, hinvalid] at hvalid
      cases hvalid

/-- The properties of a radio button with a choice that is no name. -/
def spacedChoice : Props :=
  { pinName := some "axis.0", choices := ["jog", "to go"] }

theorem build_names_spacedChoice :
    isValid ("axis.0" ++ "." ++ "at-speed") = true ∧
    (Binding.build ⟨{}, {}, []⟩ "radiobutton" spacedChoice 0).1 =
      .error (.pin (.invalidName "axis.0.to go")) ∧
    ∃ choice ∈ ["jog", "to go"], ¬ Dotted choice ∧ "axis.0.to go" = "axis.0" ++ "." ++ choice := by
  have h : (Binding.build ⟨{}, {}, []⟩ Tag.radiobutton.name spacedChoice 0).1 =
      .error (.pin (.invalidName "axis.0.to go")) := by
    rfl
  obtain ⟨-, hjoin, hbuild⟩ := build_names
  have hgiven : ∀ given, spacedChoice.pinName = some given → Dotted given := by
    rintro given ⟨⟩
    exact (isValid_iff_dotted _).1 (by decide)
  obtain ⟨-, choice, hchoice⟩ := (hbuild ⟨{}, {}, []⟩ .radiobutton spacedChoice 0).2 hgiven _ h
  exact ⟨hjoin "axis.0" "at-speed" (by decide) (by decide), h, choice, hchoice⟩

end Binding

end MachinePanel
