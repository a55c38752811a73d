/-
What an image selector shows and reports. It goes by the values that it has read: the image is that
of the last of them which has one, and of the others each is reported when it appears, that is
once for each run of it (`image_follows`). Updates that cannot read the pin end no run.
-/
import MachinePanel.Forest
import MachinePanel.Proofs.Followers
import MachinePanel.Proofs.ValueEquality

namespace MachinePanel

/-! ## Runs of values -/

/-- The values are these runs, one after the other. Each run has a value and a length, and none
goes on with the value of the run before. -/
structure Runs (values : List Value) (runs : List (Value × Nat)) : Prop where
  values_eq : values = runs.flatMap fun run => List.replicate run.2 run.1
  length_pos : ∀ run ∈ runs, 0 < run.2
  maximal : runs.IsChain (·.1 ≠ ·.1)

theorem runs_nil : Runs [] [] where
  values_eq := rfl
  length_pos := nofun
  maximal := .nil

theorem Runs.tail {values : List Value} {run : Value × Nat} {runs : List (Value × Nat)}
    (h : Runs values (run :: runs)) :
    ∃ rest, values = List.replicate run.2 run.1 ++ rest ∧ Runs rest runs :=
  ⟨_, h.values_eq, rfl, fun r hr => h.length_pos r (List.mem_cons_of_mem _ hr), h.maximal.tail⟩

/-- Every list of values is made up of runs. -/
theorem exists_runs (values : List Value) : ∃ runs, Runs values runs := by
  classical
  induction values with
  | nil => exact ⟨[], runs_nil⟩
  | cons v rest ih =>
    obtain ⟨runs, h⟩ := ih
    cases runs with
    | nil =>
      obtain rfl : rest = [] := h.values_eq
      exact ⟨[(v, 1)], rfl, by simp, List.isChain_singleton _⟩
    | cons run runs =>
      obtain ⟨w, n⟩ := run
      by_cases hv : v = w
      · subst hv
        refine ⟨(v, n + 1) :: runs, ?_, ?_, ?_⟩
        · rw [h.values_eq]
          rfl
        · exact List.forall_mem_cons.2 ⟨Nat.succ_pos n, (List.forall_mem_cons.1 h.length_pos).2⟩
        · exact List.isChain_cons.2 (List.isChain_cons.1 h.maximal)
      · refine ⟨(v, 1) :: (w, n) :: runs, ?_, ?_, ?_⟩
        · rw [h.values_eq]
          rfl
        · exact List.forall_mem_cons.2 ⟨Nat.one_pos, h.length_pos⟩
        · exact List.isChain_cons_cons.2 ⟨hv, h.maximal⟩

namespace Value

/-- Equal values are the same position. -/
theorem asIndex_congr {v w : Value} (h : (v == w) = true) : v.asIndex = w.asIndex := by
  change v.beq w = true at h
  cases v <;> cases w <;> simp_all [beq, asIndex]

/-- Bits and whole numbers are equal only if they are the same. -/
theorem eq_of_beq_of_type {v w : Value} (htype : w.type ≠ .float) (h : (v == w) = true) :
    v = w := by
  change v.beq w = true at h
  cases v <;> cases w <;> simp_all [beq, type]

theorem beq_self_of_type {v : Value} (htype : v.type ≠ .float) : (v == v) = true := by
  change v.beq v = true
  cases v <;> simp_all [beq, type]

end Value

/-- The name of the image that a value selects, if there is one. -/
def imageOf? (images : List String) (v : Value) : Option String :=
  v.asIndex.bind (images[·]?)

/-- The kind of image selector that is made for a tag. -/
def imageKind? : Tag → Option ImageKind
  | .imageBit => some .bit
  | .imageU32 => some .word
  | _ => none

/-- The pin and the value that select no image, if the note tells of them. -/
def Note.unknownImage? : Note → Option (String × Value)
  | unknownImage pin value => some (pin, value)
  | _ => none

namespace Element

/-- The notes on a use. -/
def notesIn (id : Nat) (e : Element) : Use → List Note
  | .act _ => []
  | .update now view => Forest.Round.notesOn id (e.update now view)

theorem unknownImages_notesOn (id : Nat) {refresh : Refresh Element} {pin : Handle}
    (hpin : refresh.element.pins.head? = some pin) :
    (Forest.Round.notesOn id refresh).filterMap Note.unknownImage? =
      refresh.unknownImage.toList.map (pin.name, ·) := by
  rw [Forest.Round.notesOn, hpin]
  cases refresh.unknownImage <;> cases refresh.error <;> rfl

/-- The notes on several uses. -/
def notesInAll (id : Nat) : Element → List Use → List Note
  | _, [] => []
  | e, use :: rest => e.notesIn id use ++ (e.use use).notesInAll id rest

end Element

namespace ImageSelector

variable {s : ImageSelector} {v : Value} {values : List Value}

/-- The selector when it has read a value. -/
def enter (s : ImageSelector) (v : Value) : ImageSelector :=
  { s with
    last := some v
    current := if s.repeats v then s.current else (s.position? v).or s.current }

/-- What it reports when it reads a value. -/
def report? (s : ImageSelector) (v : Value) : Option Value :=
  if s.repeats v || (s.position? v).isSome then none else some v

/-- What it reports when it reads several values. -/
def reports (s : ImageSelector) : List Value → List Value
  | [] => []
  | v :: rest => (s.report? v).toList ++ (s.enter v).reports rest

theorem update_eq (s : ImageSelector) (view : PinView) :
    s.update view = view.reading s.pin s fun v view =>
      { element := s.enter v, view, unknownImage := s.report? v } := by
  unfold update
  congr 1
  funext v view
  unfold enter report?
  cases s.repeats v with
  | true => rfl
  | false => cases s.position? v <;> rfl

theorem update_follows (s : ImageSelector) (view : PinView) :
    (s.update view).element = (view.value? s.pin).elim s s.enter ∧
      ((s.update view).error = none ↔ (view.value? s.pin).isSome) := by
  rw [update_eq]
  exact view.reading_eq s.pin s fun _ _ => ⟨rfl, rfl⟩

theorem followers : Followers Element.image ImageSelector.pin enter where
  act _ _ := rfl
  update s _ view := congrArg Element.image (s.update_follows view).1
  error s _ view := (s.update_follows view).2
  pin_enter _ _ := rfl

/-! ## The image -/

theorem repeats_iff (s : ImageSelector) (v : Value) :
    s.repeats v = true ↔ ∃ last, s.last = some last ∧ (last == v) = true := by
  unfold repeats
  cases s.last with
  | none => simp
  | some last => simp

/-- Which values have been read, and that the image is that of the last one that selects any. -/
structure Shows (s : ImageSelector) (values : List Value) : Prop where
  last : s.last = values.getLast?
  current : s.current = (values.filterMap s.position?).getLast?

theorem Shows.enter (h : s.Shows values) (v : Value) : (s.enter v).Shows (values ++ [v]) where
  last := by rw [List.getLast?_concat]; rfl
  current := by
    have hposition : (s.enter v).position? = s.position? := rfl
    rw [hposition, List.filterMap_append, ImageSelector.enter]
    simp only
    split
    · next hrepeats =>
      obtain ⟨last, hlast, hbeq⟩ := (s.repeats_iff v).1 hrepeats
      rw [h.last] at hlast
      obtain ⟨before, rfl⟩ := List.getLast?_eq_some_iff.1 hlast
      have hsame : s.position? last = s.position? v := by
        rw [position?, Value.asIndex_congr hbeq, position?]
      rw [h.current, List.filterMap_append, List.filterMap_cons, List.filterMap_cons, hsame]
      cases s.position? v <;> simp
    · rw [h.current]
      cases hv : s.position? v <;> simp [hv]

theorem Shows.enterAll (h : s.Shows values) (more : List Value) :
    (more.foldl ImageSelector.enter s).Shows (values ++ more) := by
  induction more generalizing s values with
  | nil => rwa [List.append_nil]
  | cons v rest ih =>
    rw [List.append_cons]
    exact ih (h.enter v)

theorem imageOf?_eq (s : ImageSelector) (v : Value) :
    imageOf? s.images v = (s.position? v).bind (s.images[·]?) := by
  unfold position? imageOf?
  cases v.asIndex with
  | none => rfl
  | some i => by_cases hi : i < s.images.length <;> simp [Option.filter, hi]

theorem isSome_of_position? {i : Nat} (h : s.position? v = some i) : (s.images[i]?).isSome := by
  rw [position?, Option.filter_eq_some_iff] at h
  simpa using h.2

theorem isSome_position? (s : ImageSelector) (v : Value) :
    (s.position? v).isSome = (imageOf? s.images v).isSome := by
  rw [imageOf?_eq]
  cases hv : s.position? v with
  | none => rfl
  | some i => exact (isSome_of_position? hv).symm

theorem Shows.image_eq (h : s.Shows values) :
    s.image = (values.filterMap (imageOf? s.images)).getLast? := by
  have himages : values.filterMap (imageOf? s.images) =
      (values.filterMap s.position?).filterMap (s.images[·]?) := by
    rw [List.filterMap_filterMap]
    exact congrArg (List.filterMap · values) (funext s.imageOf?_eq)
  rw [image, h.current, himages]
  obtain hnil | ⟨before, i, hconcat⟩ := (values.filterMap s.position?).eq_nil_or_concat'
  · rw [hnil]
    rfl
  · obtain ⟨v, -, hv⟩ := List.mem_filterMap.1 (hconcat ▸ List.mem_concat_self)
    obtain ⟨name, hname⟩ := Option.isSome_iff_exists.1 (isSome_of_position? hv)
    rw [hconcat, List.getLast?_concat, List.filterMap_append, List.filterMap_cons_some hname,
      List.filterMap_nil, List.getLast?_concat]
    exact hname

/-! ## The reports -/

/-- A value that repeats the last one is not reported again. -/
theorem reports_replicate (hlast : s.last = some v) (htype : v.type ≠ .float) (n : Nat)
    (rest : List Value) :
    s.reports (List.replicate n v ++ rest) = s.reports rest := by
  induction n with
  | zero => rfl
  | succ n ih =>
    have hrepeats : s.repeats v = true := by
      rw [repeats, hlast]
      exact Value.beq_self_of_type htype
    have henter : s.enter v = s := by
      rw [enter, if_pos hrepeats, ← hlast]
    rw [List.replicate_succ, List.cons_append, reports, report?, hrepeats, Bool.true_or,
      if_pos rfl, henter]
    exact ih

/-- **Of each run without an image, the value is reported once.** -/
theorem reports_runs {runs : List (Value × Nat)} (h : Runs values runs)
    (htypes : ∀ v ∈ values, v.type ≠ .float)
    (hlast : ∀ last run, s.last = some last → run ∈ runs.head? → last ≠ run.1) :
    s.reports values = (runs.map Prod.fst).filter fun v => (imageOf? s.images v).isNone := by
  induction runs generalizing s values with
  | nil =>
    obtain rfl : values = [] := h.values_eq
    rfl
  | cons run runs ih =>
    obtain ⟨v, n⟩ := run
    obtain ⟨rest, rfl, hrest⟩ := h.tail
    obtain ⟨n, rfl⟩ := Nat.exists_eq_add_one.2 (h.length_pos (v, n) (by simp))
    have hv : v.type ≠ .float := htypes v (by simp [List.replicate_succ])
    have hnew : s.repeats v = false := by
      rw [Bool.eq_false_iff]
      intro hrepeats
      obtain ⟨last, heq, hbeq⟩ := (s.repeats_iff v).1 hrepeats
      exact hlast last (v, n + 1) heq rfl (Value.eq_of_beq_of_type hv hbeq)
    have hreport : s.report? v = if (imageOf? s.images v).isSome then none else some v := by
      rw [report?, hnew, Bool.false_or, isSome_position?]
    have hnext : (s.enter v).reports rest =
        (runs.map Prod.fst).filter fun w => (imageOf? s.images w).isNone := by
      refine ih hrest (fun w hw => htypes w (List.mem_append_right _ hw))
        fun last run heq hrun => ?_
      obtain rfl : v = last := Option.some.inj heq
      exact (List.isChain_cons.1 h.maximal).1 run hrun
    rw [List.replicate_succ, List.cons_append, reports, reports_replicate rfl hv, hnext, hreport]
    cases hname : imageOf? s.images v <;> simp [hname]

theorem unknownImage_update (s : ImageSelector) (view : PinView) :
    (s.update view).unknownImage = (view.value? s.pin).bind s.report? := by
  rw [update_eq, PinView.reading, PinView.value?]
  cases view.read s.pin <;> rfl

theorem pin_update (s : ImageSelector) (view : PinView) : (s.update view).element.pin = s.pin := by
  rw [(s.update_follows view).1]
  cases view.value? s.pin <;> rfl

/-- The notes on one use of a selector tell of the value that it reports. -/
theorem notesIn_image (id : Nat) (s : ImageSelector) (use : Use) :
    ((Element.image s).notesIn id use).filterMap Note.unknownImage? =
      ((use.value? s.pin).bind s.report?).toList.map (s.pin.name, ·) := by
  cases use with
  | act action => rfl
  | update now view =>
    have hpin : ((s.update view).map Element.image).element.pins.head? = some s.pin :=
      congrArg some (s.pin_update view)
    refine (Element.unknownImages_notesOn id hpin).trans ?_
    exact congrArg (fun v : Option Value => v.toList.map (s.pin.name, ·))
      (s.unknownImage_update view)

theorem notesInAll_image (id : Nat) (s : ImageSelector) (uses : List Use) :
    ((Element.image s).notesInAll id uses).filterMap Note.unknownImage? =
      (s.reports (followedValues s.pin uses)).map (s.pin.name, ·) := by
  induction uses generalizing s with
  | nil => rfl
  | cons use rest ih =>
    rw [Element.notesInAll, List.filterMap_append, notesIn_image, followers.use, ih,
      followers.pin_foldl, followedValues_cons]
    cases use.value? s.pin with
    | none => rfl
    | some v => simp [reports]

end ImageSelector

namespace Element

/-- A selector that has been made has read nothing. -/
theorem eq_image_of_build {b : Binding} {tag : Tag} {kind : ImageKind} {props : Props}
    {built : Nanos} {e : Element} (hkind : imageKind? tag = some kind)
    (h : (b.build tag.name props built).1 = .ok e) :
    e = .image (.new kind (b.takeName props (some ⟨"number", ""⟩)).1 props) := by
  obtain ⟨design, hdesign, rfl⟩ := Binding.exists_design_of_build h
  cases tag with
  | imageBit | imageU32 =>
    cases hkind
    cases hdesign
    rfl
  | _ => cases hkind

end Element

/-- **An image selector shows the image of the last value that has one, and reports each run of any
other value once.** The values are those that it has read, in the updates that can read its pin;
the other updates fail, and count for nothing. -/
theorem image_follows {b : Binding} {tag : Tag} {kind : ImageKind} {props : Props}
    {built : Nanos} {e : Element} (hkind : imageKind? tag = some kind)
    (h : (b.build tag.name props built).1 = .ok e) (uses : List Use) (id : Nat) :
    let pin : Handle := ⟨(b.takeName props (some ⟨"number", ""⟩)).1, .input, kind.type⟩
    let values := followedValues pin uses
    let e' := e.useAll uses
    (∃ s, e' = .image s ∧ s.image = (values.filterMap (imageOf? props.images)).getLast?) ∧
    (∀ now view, ((e'.update now view).error = none ↔ (view.value? pin).isSome) ∧
      ((e'.update now view).error ≠ none → (e'.update now view).element = e')) ∧
    ((∀ v ∈ values, v.type = pin.type) →
      (∃ runs, Runs values runs) ∧
      ∀ runs, Runs values runs → (e.notesInAll id uses).filterMap Note.unknownImage? =
        ((runs.map Prod.fst).filter fun v => (imageOf? props.images v).isNone).map
          (pin.name, ·)) := by
  intro pin values e'
  obtain rfl := Element.eq_image_of_build hkind h
  let start : ImageSelector := .new kind (b.takeName props (some ⟨"number", ""⟩)).1 props
  have he' : e' = .image (values.foldl ImageSelector.enter start) :=
    ImageSelector.followers.useAll uses start
  have hnew : start.Shows [] := ⟨rfl, rfl⟩
  have hshows : (values.foldl ImageSelector.enter start).Shows values := hnew.enterAll values
  have hpin : (values.foldl ImageSelector.enter start).pin = pin :=
    ImageSelector.followers.pin_foldl values start
  have himages : (values.foldl ImageSelector.enter start).images = props.images :=
    foldl_fixed ImageSelector.enter ImageSelector.images (fun _ _ => rfl) values start
  refine ⟨⟨_, he', himages ▸ hshows.image_eq⟩, fun now view => ?_, fun htypes =>
    ⟨exists_runs values, fun runs hruns => ?_⟩⟩
  · have herror := ImageSelector.followers.error (values.foldl ImageSelector.enter start) now view
    have hupdate := ImageSelector.followers.update (values.foldl ImageSelector.enter start) now view
    rw [hpin, ← he'] at herror hupdate
    refine ⟨herror, fun hfailed => ?_⟩
    rw [hupdate, Option.not_isSome_iff_eq_none.1 fun hsome => hfailed (herror.2 hsome), he']
    rfl
  · have htypes' : ∀ v ∈ values, v.type ≠ .float := fun v hv => by
      rw [htypes v hv]
      cases kind <;> exact nofun
    exact (start.notesInAll_image id uses).trans
      (congrArg _ (ImageSelector.reports_runs hruns htypes' nofun))

/-- A selector of two images. -/
def twoImages : Props := { pinName := some "n", images := ["first", "second"] }

/-- Updates that read these numbers under a pin, or cannot read it. -/
def numbersOn (pin : String) (numbers : List (Option UInt32)) : List Use :=
  numbers.map fun n =>
    .update 0 ⟨⟨(n.map fun n => (pin, ⟨.input, .u32 n⟩)).toList⟩, []⟩

theorem image_follows_unknown :
    let uses := numbersOn "n" [some 1, some 5, none, some 5, some 7, some 0, some 5]
    ∃ e s, (Binding.build ⟨{}, {}, []⟩ "image_u32" twoImages 0).1 = .ok e ∧
      e.useAll uses = .image s ∧ s.image = some "first" ∧
      (e.notesInAll 3 uses).filterMap Note.unknownImage? =
        [("n", .u32 5), ("n", .u32 7), ("n", .u32 5)] := by
  intro uses
  obtain ⟨e, hbuild⟩ : ∃ e, (Binding.build ⟨{}, {}, []⟩ "image_u32" twoImages 0).1 = .ok e :=
    ⟨_, rfl⟩
  have hkind : imageKind? .imageU32 = some .word := rfl
  obtain ⟨⟨s, hs, himage⟩, -, hnotes⟩ := image_follows hkind hbuild uses 3
  have htypes : ∀ v ∈ followedValues ⟨"n", .input, .u32⟩ uses, v.type = .u32 := by
    intro v hv
    obtain ⟨use, huse, hvalue⟩ := List.mem_filterMap.1 hv
    simp only [uses, numbersOn, List.map_cons, List.map_nil, List.mem_cons, List.not_mem_nil,
      or_false] at huse
    rcases huse with rfl | rfl | rfl | rfl | rfl | rfl | rfl <;> cases hvalue <;> rfl
  have hruns : Runs (followedValues ⟨"n", .input, .u32⟩ uses)
      [(.u32 1, 1), (.u32 5, 2), (.u32 7, 1), (.u32 0, 1), (.u32 5, 1)] := by
    refine ⟨rfl, by simp, ?_⟩
    simp [List.isChain_cons_cons]
  exact ⟨e, s, hbuild, hs, himage.trans rfl, ((hnotes htypes).2 _ hruns).trans rfl⟩

end MachinePanel
