/-
The text of a number. A number writes its text again only when the value of its pin has changed,
and values are compared as scalars, for which the two zeros are one. The text is therefore that of
the first value of the run of equal values that was read last. It is the text of the last value
itself unless the two are opposite zeros and the format is a fixed-point one, which tells them
apart (`text_eq_iff_not_oppositeZeros`).
-/
import MachinePanel.Element.Indicator
import MachinePanel.Proofs.ValueEquality
import Mathlib

namespace MachinePanel

/-! ## Texts of the two zeros -/

namespace Text

theorem dropWhile_padLeft (width : Nat) (cs : List Char) :
    (padLeft ' ' width cs).dropWhile (· == ' ') = cs.dropWhile (· == ' ') := by
  rw [padLeft, List.dropWhile_append_of_pos]
  intro c hc
  simp [List.eq_of_mem_replicate hc]

/-- A character in front shows, in a field of any width, if it is not a blank. -/
theorem alignRight_cons_ne (width : Nat) {c : Char} (hc : c ≠ ' ') (cs : List Char) :
    alignRight width (c :: cs) ≠ alignRight width cs := by
  intro heq
  have hchars : padLeft ' ' width (c :: cs) = padLeft ' ' width cs := String.ofList_injective heq
  have hdrop := congrArg (List.dropWhile (· == ' ')) hchars
  rw [dropWhile_padLeft, dropWhile_padLeft, List.dropWhile_cons_of_neg (by simpa using hc)] at hdrop
  have hle := (List.dropWhile_suffix (· == ' ') (l := cs)).length_le
  rw [← hdrop, List.length_cons] at hle
  exact Nat.not_succ_le_self _ hle

end Text

namespace Binary64

theorem read_zero : read 0.0 = .finite ⟨false, 0, lowestExponent⟩ := by
  decide +kernel

theorem read_negZero : read (-0.0) = .finite ⟨true, 0, lowestExponent⟩ := by
  decide +kernel

theorem Parts.ratio_negative (p : Parts) (negative : Bool) :
    ({ p with negative } : Parts).ratio = p.ratio :=
  rfl

/-- The negative zero is written as the other zero is, with a sign in front. -/
theorem fixedText_negZero (places : Nat) :
    fixedText places (-0.0) = '-' :: fixedText places 0.0 := by
  have hratio := Parts.ratio_negative ⟨false, 0, lowestExponent⟩ true
  simp only [fixedText, signedText, read_zero, read_negZero, hratio]
  simp

theorem toIntWithin_negZero (bounds : Bounds) :
    toIntWithin bounds (-0.0) = toIntWithin bounds 0.0 := by
  simp [toIntWithin, trunc, read_zero, read_negZero, Parts.whole, Parts.ratio]

end Binary64

namespace Value

/-- One is the zero of floats, and the other the negative zero. -/
def OppositeZeros (a b : Value) : Prop :=
  a = .float 0.0 ∧ b = .float (-0.0) ∨ a = .float (-0.0) ∧ b = .float 0.0

/-- Equal values are the same, or opposite zeros. -/
theorem eq_or_oppositeZeros_of_beq {a b : Value} (h : (a == b) = true) :
    a = b ∨ OppositeZeros a b := by
  change a.beq b = true at h
  cases a with
  | float x =>
    cases b with
    | float y =>
      obtain ⟨-, -, rfl | ⟨rfl, rfl⟩ | ⟨rfl, rfl⟩⟩ := Float.beq_iff_ne_nan_and_eq.1 h
      · exact .inl rfl
      · exact .inr (.inl ⟨rfl, rfl⟩)
      · exact .inr (.inr ⟨rfl, rfl⟩)
    | _ => cases h
  | _ => cases b <;> simp_all [beq]

end Value

theorem NumberFormat.format_negZero_eq_iff (f : NumberFormat) :
    f.format (-0.0) = f.format 0.0 ↔ f.conversion = .integer := by
  unfold format
  cases f.conversion with
  | fixed =>
    simp only [Binary64.fixedText_negZero]
    exact iff_of_false (Text.alignRight_cons_ne _ (by decide) _) nofun
  | integer => exact iff_of_true (by simp only [Binary64.toIntWithin_negZero]) rfl

/-- A fixed-point format, and it alone, tells opposite zeros apart. -/
theorem NumberFormat.format_eq_iff_of_oppositeZeros (f : NumberFormat) {a b : Value}
    (h : Value.OppositeZeros a b) :
    f.format a.asFloat = f.format b.asFloat ↔ f.conversion ≠ .fixed := by
  have hconversion : f.conversion = .integer ↔ f.conversion ≠ .fixed := by
    cases f.conversion <;> simp
  rw [← hconversion, ← f.format_negZero_eq_iff]
  obtain ⟨rfl, rfl⟩ | ⟨rfl, rfl⟩ := h
  · exact eq_comm
  · exact Iff.rfl

namespace NumberLabel

/-! ## Runs of updates -/

/-- The value that an update reads. -/
def read? (n : NumberLabel) (view : PinView) : Option Value :=
  (view.read n.pin).toOption.map Prod.fst

/-- The values that are read in a sequence of updates. -/
def values (n : NumberLabel) (views : List PinView) : List Value :=
  views.filterMap n.read?

/-- The number after a sequence of updates. -/
def updateAll (n : NumberLabel) (views : List PinView) : NumberLabel :=
  views.foldl (fun n view => (n.update view).element) n

/-- The number with the text of a value. -/
def showing (n : NumberLabel) (v : Value) : NumberLabel :=
  { n with text := n.format.format v.asFloat, value := some v }

/-- An update that writes the text every time. -/
def rewrite (n : NumberLabel) (view : PinView) : NumberLabel :=
  match n.read? view with
  | some v => n.showing v
  | none => n

/-- The number after a sequence of updates that write the text every time. -/
def rewriteAll (n : NumberLabel) (views : List PinView) : NumberLabel :=
  views.foldl rewrite n

/-- The values end in a run that begins with this one, and are equal to it in the run and not
before it. -/
def EndsInRunOf (values : List Value) (first : Value) : Prop :=
  ∃ before run, values = before ++ first :: run ∧ (∀ v ∈ run, (first == v) = true) ∧
    ∀ last, before.getLast? = some last → (last == first) = false

variable {n : NumberLabel} {values : List Value} {first v : Value} {view : PinView}

theorem endsInRunOf_singleton (v : Value) : EndsInRunOf [v] v :=
  ⟨[], [], rfl, nofun, nofun⟩

/-- An equal value goes on with the run. -/
theorem EndsInRunOf.concat_of_beq (h : EndsInRunOf values first) (hv : (first == v) = true) :
    EndsInRunOf (values ++ [v]) first := by
  obtain ⟨before, run, rfl, hrun, hbefore⟩ := h
  refine ⟨before, run ++ [v], by simp, fun w hw => ?_, hbefore⟩
  obtain hw | hw := List.mem_append.1 hw
  · exact hrun w hw
  · rw [List.mem_singleton.1 hw]
    exact hv

theorem EndsInRunOf.getLast_beq (h : EndsInRunOf values first) (v : Value) :
    ∀ last, values.getLast? = some last → (last == v) = (first == v) := by
  obtain ⟨before, run, rfl, hrun, -⟩ := h
  intro last hlast
  rw [List.getLast?_append_of_ne_nil _ (List.cons_ne_nil _ _), List.getLast?_cons] at hlast
  cases hrunLast : run.getLast? with
  | none =>
    rw [hrunLast] at hlast
    cases hlast
    rfl
  | some w =>
    rw [hrunLast] at hlast
    cases hlast
    exact (Value.beq_congr (hrun w (List.mem_of_getLast? hrunLast)) v).symm

/-- Any other value begins the next run. -/
theorem EndsInRunOf.concat_of_not_beq (h : EndsInRunOf values first) (hv : (first == v) = false) :
    EndsInRunOf (values ++ [v]) v :=
  ⟨values, [], rfl, nofun, fun last hlast => (h.getLast_beq v last hlast).trans hv⟩

/-- The first value of a run can be told from its last only if the two are opposite zeros. -/
theorem EndsInRunOf.eq_or_oppositeZeros (h : EndsInRunOf (values ++ [v]) first) :
    first = v ∨ Value.OppositeZeros first v := by
  obtain ⟨before, run, heq, hrun, -⟩ := h
  have hlast := congrArg List.getLast? heq
  rw [List.getLast?_concat] at hlast
  obtain rfl | ⟨run, w, rfl⟩ := run.eq_nil_or_concat'
  · rw [List.getLast?_concat] at hlast
    exact .inl (Option.some.inj hlast).symm
  · rw [← List.cons_append, ← List.append_assoc, List.getLast?_concat] at hlast
    obtain rfl : v = w := Option.some.inj hlast
    exact Value.eq_or_oppositeZeros_of_beq (hrun v (by simp))

/-! ## One update -/

/-- An update shows a value that is not shown yet. One that fails changes nothing. -/
theorem update_eq (n : NumberLabel) (view : PinView) :
    match n.read? view with
    | some v => (n.update view).element = (if n.shows v then n else n.showing v) ∧
        (n.update view).error = none
    | none => (n.update view).element = n ∧ (n.update view).error ≠ none := by
  unfold read? update PinView.reading
  cases view.read n.pin with
  | error e => exact ⟨rfl, nofun⟩
  | ok r =>
    change (if n.shows r.1 then _ else _ : Refresh NumberLabel).element = _ ∧
      (if n.shows r.1 then _ else _ : Refresh NumberLabel).error = none
    split <;> exact ⟨rfl, rfl⟩

/-- What the number shows is the first value of the run that was read last; before anything is
read, it shows zero. -/
structure Follows (n : NumberLabel) (values : List Value) : Prop where
  text : n.text = n.format.format (n.value.elim 0.0 Value.asFloat)
  value : match n.value with
    | none => values = []
    | some first => EndsInRunOf values first

theorem follows_new (kind : NumberKind) (base : String) (props : Props) :
    (new kind base props).Follows [] :=
  ⟨rfl, rfl⟩

theorem Follows.showing (h : n.Follows values) (hv : n.shows v = false) :
    (n.showing v).Follows (values ++ [v]) := by
  have hvalue := h.value
  refine ⟨rfl, ?_⟩
  unfold shows at hv
  cases hshown : n.value with
  | none =>
    rw [hshown] at hvalue
    rw [hvalue]
    exact endsInRunOf_singleton v
  | some first =>
    rw [hshown] at hvalue hv
    exact hvalue.concat_of_not_beq hv

theorem Follows.concat (h : n.Follows values) (hv : n.shows v = true) :
    n.Follows (values ++ [v]) := by
  have hvalue := h.value
  refine ⟨h.text, ?_⟩
  unfold shows at hv
  cases hshown : n.value with
  | none =>
    rw [hshown] at hv
    cases hv
  | some first =>
    rw [hshown] at hvalue hv
    exact hvalue.concat_of_beq hv

/-- The pin and the format stay, and the number goes on to show the first value of the last run.
The value that is read now goes on with the run or begins another. -/
theorem Follows.update (h : n.Follows values) (view : PinView) :
    (n.update view).element.Follows (values ++ (n.read? view).toList) ∧
      (n.update view).element.pin = n.pin ∧ (n.update view).element.format = n.format := by
  have hupdate := n.update_eq view
  cases hread : n.read? view with
  | none =>
    rw [hread] at hupdate
    rw [hupdate.1, Option.toList_none, List.append_nil]
    exact ⟨h, rfl, rfl⟩
  | some v =>
    rw [hread] at hupdate
    rw [hupdate.1, Option.toList_some]
    cases hv : n.shows v with
    | true => exact ⟨h.concat hv, rfl, rfl⟩
    | false => exact ⟨h.showing hv, rfl, rfl⟩

/-! ## All updates -/

theorem values_cons (n : NumberLabel) (view : PinView) (rest : List PinView) :
    n.values (view :: rest) = (n.read? view).toList ++ n.values rest := by
  rw [NumberLabel.values, List.filterMap_cons]
  cases n.read? view <;> rfl

/-- What is read depends on the pin alone. -/
theorem read?_congr {n' : NumberLabel} (h : n'.pin = n.pin) : n'.read? = n.read? := by
  funext view
  rw [read?, h, read?]

/-- The number goes on to show the first value of the last run from update to update. Those that
fail do not count. -/
theorem Follows.updateAll (h : n.Follows values) (views : List PinView) :
    (n.updateAll views).Follows (values ++ n.values views) ∧
      (n.updateAll views).pin = n.pin ∧ (n.updateAll views).format = n.format := by
  induction views generalizing n values with
  | nil =>
    rw [NumberLabel.values, List.filterMap_nil, List.append_nil]
    exact ⟨h, rfl, rfl⟩
  | cons view rest ih =>
    obtain ⟨hfollows, hpin, hformat⟩ := h.update view
    obtain ⟨hrest, hpin', hformat'⟩ := ih hfollows
    rw [NumberLabel.values, read?_congr hpin] at hrest
    rw [values_cons, ← List.append_assoc]
    exact ⟨hrest, hpin'.trans hpin, hformat'.trans hformat⟩

theorem rewriteAll_fixed (n : NumberLabel) (views : List PinView) :
    (n.rewriteAll views).pin = n.pin ∧ (n.rewriteAll views).format = n.format := by
  induction views generalizing n with
  | nil => exact ⟨rfl, rfl⟩
  | cons view rest ih =>
    have hrewrite : (n.rewrite view).pin = n.pin ∧ (n.rewrite view).format = n.format := by
      unfold rewrite
      split <;> exact ⟨rfl, rfl⟩
    exact ⟨(ih _).1.trans hrewrite.1, (ih _).2.trans hrewrite.2⟩

/-- Updates that write the text every time show the value that is read last. -/
theorem text_rewriteAll_concat (n : NumberLabel) (views : List PinView)
    (hread : n.read? view = some v) :
    (n.rewriteAll (views ++ [view])).text = n.format.format v.asFloat := by
  obtain ⟨hpin, hformat⟩ := n.rewriteAll_fixed views
  rw [rewriteAll, List.foldl_append]
  change ((n.rewriteAll views).rewrite view).text = _
  rw [rewrite, read?_congr hpin, hread, ← hformat]
  rfl

/-- **The text of a number is that of the value it has read, if and only if** this is not a zero in
a run of zeros that the opposite zero began, or if the format writes both zeros alike. Updates that
write the text every time always show the value that was read. An update fails only if it reads
nothing, and then changes nothing. -/
theorem text_eq_iff_not_oppositeZeros (kind : NumberKind) (base : String) (props : Props)
    (views : List PinView) (view : PinView) :
    let start := new kind base props
    let n := start.updateAll views
    let refresh := n.update view
    (start.read? view = none → refresh.element = n ∧ refresh.error ≠ none) ∧
    ∀ v, start.read? view = some v → refresh.error = none ∧
      (start.rewriteAll (views ++ [view])).text = start.format.format v.asFloat ∧
      ∃ first, EndsInRunOf (start.values (views ++ [view])) first ∧
        refresh.element.value = some first ∧
        refresh.element.text = start.format.format first.asFloat ∧
        (refresh.element.text = start.format.format v.asFloat ↔
          ¬ (start.format.conversion = .fixed ∧ Value.OppositeZeros first v)) := by
  intro start n refresh
  have hupdate := n.update_eq view
  rw [read?_congr ((follows_new kind base props).updateAll views).2.1] at hupdate
  refine ⟨fun hread => ?_, fun v hread => ?_⟩
  · rw [hread] at hupdate
    exact hupdate
  rw [hread] at hupdate
  have hall : refresh.element = start.updateAll (views ++ [view]) := by
    rw [NumberLabel.updateAll, List.foldl_append]
    rfl
  obtain ⟨hfollows, -, hformat⟩ := (follows_new kind base props).updateAll (views ++ [view])
  rw [← hall, List.nil_append] at hfollows
  rw [← hall] at hformat
  have hvalues : start.values (views ++ [view]) = start.values views ++ [v] := by
    rw [NumberLabel.values, List.filterMap_append, List.filterMap_cons, hread, List.filterMap_nil]
    rfl
  have htext := hfollows.text
  have hvalue := hfollows.value
  rw [hformat] at htext
  refine ⟨hupdate.2, text_rewriteAll_concat start views hread, ?_⟩
  cases hshown : refresh.element.value with
  | none =>
    rw [hshown, hvalues] at hvalue
    exact absurd hvalue (List.append_ne_nil_of_right_ne_nil _ (List.cons_ne_nil v []))
  | some first =>
    rw [hshown] at htext hvalue
    refine ⟨first, hvalue, rfl, htext, ?_⟩
    rw [htext]
    constructor
    · rintro heq ⟨hfixed, hzeros⟩
      exact (NumberFormat.format_eq_iff_of_oppositeZeros _ hzeros).1 heq hfixed
    · intro hnot
      rw [hvalues] at hvalue
      obtain rfl | hzeros := hvalue.eq_or_oppositeZeros
      · rfl
      · exact (NumberFormat.format_eq_iff_of_oppositeZeros _ hzeros).2 fun hfixed =>
          hnot ⟨hfixed, hzeros⟩

/-- A pin `n` that holds a float. -/
def holding (x : Float) : PinView where
  store := ⟨[("n", ⟨.input, .float x⟩)]⟩

theorem text_eq_iff_not_oppositeZeros_integer :
    let start := new .float "n" { format := some .integer }
    let views := [holding 0.0, ⟨{}, []⟩]
    start.read? (holding (-0.0)) = some (.float (-0.0)) ∧
      ((start.updateAll views).update (holding (-0.0))).element.text = "0" := by
  intro start views
  have hread : start.read? (holding (-0.0)) = some (.float (-0.0)) := rfl
  obtain ⟨-, -, first, -, -, -, htext⟩ := (text_eq_iff_not_oppositeZeros .float "n"
    { format := some .integer } views (holding (-0.0))).2 _ hread
  have hnegZero : NumberFormat.integer.format (-0.0) = "0" := by decide +kernel
  exact ⟨hread, (htext.2 fun h => nomatch h.1).trans hnegZero⟩

/-- It is not so that the text is always that of the value which was read: the negative zero on
a pin that held zero is still shown without its sign. -/
theorem text_ne_format_read :
    ¬ ∀ (kind : NumberKind) (base : String) (props : Props) (views : List PinView)
      (view : PinView) (v : Value), (new kind base props).read? view = some v →
        (((new kind base props).updateAll views).update view).element.text =
          (new kind base props).format.format v.asFloat := by
  intro h
  have htext := h .float "n" {} [holding 0.0] (holding (-0.0)) _ rfl
  have hshown : (((new .float "n" {}).updateAll [holding 0.0]).update
      (holding (-0.0))).element.text = "0.0" := by
    decide +kernel
  have hread : (new .float "n" {}).format.format (-0.0) = "-0.0" := by
    decide +kernel
  exact absurd ((hshown.symm.trans htext).trans hread) (by decide)

end NumberLabel

end MachinePanel
