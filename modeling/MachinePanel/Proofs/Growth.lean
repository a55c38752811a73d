/-
Forests as they grow. An addition fails if there is no such parent or the element could not
be made, and then changes nothing; otherwise it gives the new element the next number and
makes it the last child of its parent, or the last root (`answers_perform`,
`links_attach`). So the roots, and the children of every element, are in the order in which
they were added (`links_grow`), and the forest stays planted.
-/
import MachinePanel.Panel.Elements
import MachinePanel.Proofs.Traversal

namespace MachinePanel.Forest

variable {L μ : Type}

/-- A way to add an element: as a root, below a parent, or by its tag, with the pins and the
binder of a panel. -/
inductive Addition (L μ : Type) where
  | root (element : Element)
  | child (parent : Nat) (element : Element)
  | make (panel : Panel L μ) (parent : Option Nat) (tag : String) (props : Props)

/-- The parent that is given. -/
def Addition.parent? : Addition L μ → Option Nat
  | root _ => none
  | child parent _ => some parent
  | make _ parent _ _ => parent

/-- The element to be added, which is made first if only its tag is given. -/
def Addition.made : Addition L μ → Except PanelError Element
  | root element | child _ element => .ok element
  | make panel _ tag props => (panel.buildElement tag props).1

/-- The answer to an addition, and the forest afterwards. -/
def perform (f : Forest) : Addition L μ → Except PanelError Nat × Forest
  | .root element => (.ok (f.addRoot element).1, (f.addRoot element).2)
  | .child parent element =>
    match f.addChild parent element with
    | .ok (id, f) => (.ok id, f)
    | .error e => (.error e, f)
  | .make panel parent tag props =>
    let panel := { panel with driver := { panel.driver with forest := f } }
    let (answer, panel) := panel.addElement parent tag props
    (answer, panel.driver.forest)

/-- The forest after several additions. -/
def grow (f : Forest) (additions : List (Addition L μ)) : Forest :=
  additions.foldl (fun f addition => (f.perform addition).2) f

/-- The elements that are added, with their parents, in order. -/
def added (f : Forest) : List (Addition L μ) → List (Option Nat × Nat)
  | [] => []
  | addition :: rest =>
    match f.perform addition with
    | (.ok id, f) => (addition.parent?, id) :: f.added rest
    | (.error _, f) => f.added rest

/-- The roots, or the children of a parent. -/
def links (f : Forest) : Option Nat → List Nat
  | none => f.roots
  | some parent => f.children parent

/-- An answer: the element is attached, or nothing changes since there is no such parent or the
element could not be made. -/
inductive Answers (f : Forest) (parent? : Option Nat) (made : Except PanelError Element) :
    Except PanelError Nat × Forest → Prop where
  | noParent {parent : Nat} (hparent : parent? = some parent) (h : f.size ≤ parent) :
      Answers f parent? made (.error (.noSuchElement parent), f)
  | notMade {e : PanelError} (hparent : f.hasParent parent? = true) (h : made = .error e) :
      Answers f parent? made (.error e, f)
  | attached {element : Element} {id : Nat} {f' : Forest} (hmade : made = .ok element)
      (h : f.attach parent? element = .ok (id, f')) : Answers f parent? made (.ok id, f')

variable {f f' : Forest} {element : Element} {id : Nat} {parent? : Option Nat}

/-! ## One addition -/

/-- Below a parent that exists every element can be attached. -/
theorem exists_attach (h : f.hasParent parent? = true) (element : Element) :
    ∃ id f', f.attach parent? element = .ok (id, f') := by
  cases parent? with
  | none => exact ⟨_, _, rfl⟩
  | some parent =>
    have hlt : parent < f.size := of_decide_eq_true h
    exact ⟨_, _, if_pos hlt⟩

theorem answers_addBuilt (p : Panel L μ) {parent? : Option Nat}
    (hparent : p.driver.forest.hasParent parent? = true) (tag : String) (props : Props) :
    let r := p.addBuilt parent? tag props
    p.driver.forest.Answers parent? (p.buildElement tag props).1 (r.1, r.2.driver.forest) := by
  unfold Panel.addBuilt
  -- To make an element does not touch the forest.
  have hforest : (p.buildElement tag props).2.driver.forest = p.driver.forest := rfl
  generalize p.buildElement tag props = built at hforest
  obtain ⟨e | element, q⟩ := built
  · exact hforest ▸ .notMade (hforest ▸ hparent) rfl
  · rw [← hforest] at hparent
    obtain ⟨id, f', hattach⟩ := exists_attach hparent element
    simp only [Panel.attachElement, ← hforest, hattach]
    exact .attached rfl hattach

theorem answers_addElement (p : Panel L μ) (parent? : Option Nat) (tag : String) (props : Props) :
    let r := p.addElement parent? tag props
    p.driver.forest.Answers parent? (p.buildElement tag props).1 (r.1, r.2.driver.forest) := by
  cases parent? with
  | none => exact answers_addBuilt p rfl tag props
  | some parent =>
    simp only [Panel.addElement]
    split
    · next hparent => exact answers_addBuilt p hparent tag props
    · next hparent =>
      have hle : p.driver.forest.size ≤ parent := by simpa [hasParent] using hparent
      exact .noParent rfl hle

/-- **An addition attaches the element below the parent that is given.** It changes nothing if
there is no such parent, or the element could not be made. -/
theorem answers_perform (f : Forest) (addition : Addition L μ) :
    f.Answers addition.parent? addition.made (f.perform addition) := by
  cases addition with
  | root element => exact .attached rfl (show f.attach none element = .ok _ from rfl)
  | child parent element =>
    simp only [perform]
    by_cases hlt : parent < f.size
    · have hadd : f.addChild parent element = .ok _ := if_pos hlt
      rw [hadd]
      exact .attached rfl hadd
    · have hadd : f.addChild parent element = .error (.noSuchElement parent) := if_neg hlt
      rw [hadd]
      exact .noParent rfl (Nat.le_of_not_lt hlt)
  | make panel parent tag props =>
    exact answers_addElement { panel with driver := { panel.driver with forest := f } } parent tag
      props

/-- An attached element has the next number, and is the last below its parent. -/
theorem links_attach (h : f.attach parent? element = .ok (id, f')) :
    id = f.size ∧ f'.size = f.size + 1 ∧
      ∀ p, f'.links p = f.links p ++ if parent? = p then [id] else [] := by
  cases parent? with
  | none =>
    cases h
    refine ⟨rfl, by simp [size], fun p => ?_⟩
    cases p with
    | none => rfl
    | some p =>
      rw [if_neg (by simp), List.append_nil]
      exact congrFun (children_addRoot f element) p
  | some parent =>
    have hchildren := children_addChild h
    simp only [attach, addChild] at h
    split at h
    · cases h
      refine ⟨rfl, by simp [size], fun p => ?_⟩
      cases p with
      | none => simp [links]
      | some p =>
        rw [links, hchildren p]
        by_cases hp : p = parent <;> simp [links, hp, Ne.symm]
    · cases h

/-! ## Several additions -/

theorem planted_grow (h : f.Planted) (additions : List (Addition L μ)) :
    (f.grow additions).Planted := by
  induction additions generalizing f with
  | nil => exact h
  | cons addition rest ih =>
    rw [grow, List.foldl_cons]
    have hanswers := f.answers_perform addition
    generalize f.perform addition = answer at hanswers
    cases hanswers with
    | noParent | notMade => exact ih h
    | attached _ hattach => exact ih (h.attach hattach)

/-- **Roots and siblings are in the order in which they were added**, and elements are numbered
in that order. -/
theorem links_grow (f : Forest) (additions : List (Addition L μ)) :
    (f.added additions).map Prod.snd = List.range' f.size (f.added additions).length ∧
      (f.grow additions).size = f.size + (f.added additions).length ∧
      ∀ p, (f.grow additions).links p =
        f.links p ++ ((f.added additions).filter (·.1 = p)).map Prod.snd := by
  induction additions generalizing f with
  | nil => exact ⟨rfl, rfl, fun p => (List.append_nil _).symm⟩
  | cons addition rest ih =>
    have hanswers := f.answers_perform addition
    simp only [grow, added, List.foldl_cons]
    generalize f.perform addition = answer at hanswers
    cases hanswers with
    | noParent | notMade => exact ih f
    | @attached element id f' _ hattach =>
      obtain ⟨rfl, hsize, hlinks⟩ := links_attach hattach
      obtain ⟨hnumbers, hsize', hlinks'⟩ := ih f'
      refine ⟨?_, ?_, fun p => (hlinks' p).trans ?_⟩
      · rw [List.map_cons, hnumbers, hsize, List.length_cons, List.range'_succ]
      · refine hsize'.trans ?_
        rw [hsize, List.length_cons]
        omega
      · rw [hlinks, List.append_assoc, List.filter_cons]
        by_cases hp : addition.parent? = p <;> simp [hp]

end MachinePanel.Forest
