/-
The grammar of number formats. A format is a width, places and a letter (`Spells`): the width is
nothing or a number, the places are nothing or a point with or without a number, and a number is a
run of digits after a plus sign or not. The parser splits a text at its last character and at the
first point, looks at each piece by itself and checks the limits in the end; what it accepts are
exactly the texts of the grammar, and the format it gives is the one that is spelled
(`parse_iff_spells`).

A text can be cut by bytes only between two of its characters. The letter is cut off as the last
byte of the text, once it is known for a letter of one byte, and so the cut can always be made
(`parseCutting?_eq`).
-/
import MachinePanel.Element.NumberFormat
import Mathlib.Data.List.Induction
import Mathlib.Data.List.TakeWhile
import Mathlib.Data.Nat.Digits.Defs

namespace MachinePanel

/-! ## Numbers -/

namespace Numeral

variable {cs : List Char} {n : Nat}

/-- A run of ASCII digits, at least one. -/
def IsRun (cs : List Char) : Prop :=
  cs ≠ [] ∧ ∀ c ∈ cs, c.isDigit = true

/-- The number that digits stand for, the last of them counting ones. -/
def decimal (cs : List Char) : Nat :=
  Nat.ofDigits 10 (cs.reverse.map fun c => c.toNat - 48)

theorem digitValue?_eq (c : Char) :
    digitValue? c = if c.isDigit then some (c.toNat - 48) else none := by
  simp only [digitValue?, Char.isDigit, Bool.and_eq_true, decide_eq_true_eq]
  rfl

theorem decimal_concat (cs : List Char) (c : Char) :
    decimal (cs ++ [c]) = 10 * decimal cs + (c.toNat - 48) := by
  rw [decimal, List.reverse_append, List.reverse_singleton, List.singleton_append, List.map_cons,
    Nat.ofDigits_cons, Nat.add_comm]
  rfl

theorem extend_eq_some_iff :
    extend 0 cs = some n ↔ (∀ c ∈ cs, c.isDigit = true) ∧ n = decimal cs := by
  induction cs using List.reverseRecOn generalizing n with
  | nil =>
    constructor
    · rintro ⟨⟩
      exact ⟨nofun, rfl⟩
    · rintro ⟨-, rfl⟩
      rfl
  | append_singleton cs c ih =>
    have hlast (k : Nat) : extend k [c] = (digitValue? c).map (10 * k + ·) := by
      simp [extend]
    rw [extend_append, decimal_concat, Option.bind_eq_some_iff]
    simp only [hlast, digitValue?_eq, ih, List.mem_append, List.mem_singleton]
    constructor
    · rintro ⟨_, ⟨hdigits, rfl⟩, hn⟩
      split at hn
      · next hc =>
        cases hn
        refine ⟨?_, rfl⟩
        rintro d (hd | rfl)
        · exact hdigits d hd
        · exact hc
      · cases hn
    · rintro ⟨hdigits, rfl⟩
      refine ⟨_, ⟨fun d hd => hdigits d (.inl hd), rfl⟩, ?_⟩
      rw [if_pos (hdigits c (.inr rfl)), Option.map_some]

/-- **What is read is a run of digits**, with its decimal value. -/
theorem value?_eq_some_iff : value? cs = some n ↔ IsRun cs ∧ n = decimal cs := by
  unfold value?
  cases cs with
  | nil => simp [IsRun]
  | cons c cs => simp [IsRun, extend_eq_some_iff]

end Numeral

/-! ## Trimming and cutting -/

namespace Text

variable {cs left mid right : List Char}

/-- The text is a middle part between two runs of blanks, and the middle part neither begins nor
ends with a blank. -/
structure Framed (cs left mid right : List Char) : Prop where
  eq : cs = left ++ mid ++ right
  left : ∀ c ∈ left, isBlank c = true
  right : ∀ c ∈ right, isBlank c = true
  first : ∀ c ∈ mid.head?, isBlank c = false
  last : ∀ c ∈ mid.getLast?, isBlank c = false

theorem head?_dropWhile (p : Char → Bool) (cs : List Char) :
    ∀ c ∈ (cs.dropWhile p).head?, p c = false := by
  intro c hc
  have hnot := List.head?_dropWhile_not p cs
  rw [hc] at hnot
  exact hnot

theorem dropWhile_append_eq {p : Char → Bool} {cs rest : List Char} (hcs : ∀ c ∈ cs, p c = true)
    (hrest : ∀ c ∈ rest.head?, p c = false) : (cs ++ rest).dropWhile p = rest := by
  rw [List.dropWhile_append_of_pos hcs]
  cases rest with
  | nil => rfl
  | cons c rest => exact List.dropWhile_cons_of_neg (by simp [hrest c rfl])

/-- The blanks at the end are the first ones of the reversed text. -/
theorem Framed.trim_eq (h : Framed cs left mid right) : trim cs = mid := by
  have hright : ∀ c ∈ right.reverse, isBlank c = true :=
    fun c hc => h.right c (List.mem_reverse.1 hc)
  rw [h.eq, trim, List.append_assoc, List.dropWhile_append_of_pos h.left]
  cases mid with
  | nil =>
    have hnone : right.dropWhile isBlank = [] := List.dropWhile_eq_nil_iff.2 h.right
    rw [List.nil_append, hnone]
    rfl
  | cons c mid =>
    have hfirst : isBlank c = false := h.first c rfl
    have hlast : ∀ d ∈ (c :: mid).reverse.head?, isBlank d = false := by
      rw [List.head?_reverse]
      exact h.last
    rw [List.cons_append, List.dropWhile_cons_of_neg (by simp [hfirst]), ← List.cons_append,
      List.reverse_append, dropWhile_append_eq hright hlast, List.reverse_reverse]

theorem exists_framed_trim (cs : List Char) : ∃ left right, Framed cs left (trim cs) right := by
  let rest := cs.dropWhile isBlank
  refine ⟨cs.takeWhile isBlank, (rest.reverse.takeWhile isBlank).reverse, ?_,
    fun c => List.mem_takeWhile_imp, fun c hc => List.mem_takeWhile_imp (List.mem_reverse.1 hc),
    ?_, ?_⟩
  · have hrest : trim cs ++ (rest.reverse.takeWhile isBlank).reverse = rest := by
      rw [trim, ← List.reverse_append, List.takeWhile_append_dropWhile, List.reverse_reverse]
    rw [List.append_assoc, hrest, List.takeWhile_append_dropWhile]
  · -- What is left of the rest begins as the rest does.
    intro c hc
    have hprefix : trim cs <+: rest := by
      rw [trim, ← List.reverse_suffix, List.reverse_reverse]
      exact List.dropWhile_suffix _
    obtain ⟨tail, htail⟩ := hprefix
    refine head?_dropWhile isBlank cs c (?_ : rest.head? = some c)
    rw [← htail, List.head?_append, Option.mem_def.1 hc, Option.some_or]
  · rw [trim, List.getLast?_reverse]
    exact head?_dropWhile isBlank _

/-- The text in front of a position in bytes. There is none if the position is not between two
characters. -/
def upTo? (text : String) (bytes : Nat) : Option String :=
  if h : String.Pos.Raw.IsValid text ⟨bytes⟩ then some (text.sliceTo (text.pos ⟨bytes⟩ h)).copy
  else none

theorem upTo?_append (text rest : String) : upTo? (text ++ rest) text.utf8ByteSize = some text := by
  have hsplits : ((text ++ rest).pos text.rawEndPos _).Splits text rest :=
    String.Pos.splits_append_rawEndPos
  exact (dif_pos _).trans (congrArg some ((String.Pos.splits _).eq_left hsplits))

end Text

open Numeral (IsRun decimal value?_eq_some_iff)
open Text (Framed)

namespace NumberFormat

variable {cs body : List Char} {n : Nat} {p : Option Nat} {f : NumberFormat}

/-! ## The grammar -/

/-- A number: a run of digits, after a plus sign or not. -/
inductive Field : List Char → Nat → Prop where
  | plain {cs : List Char} (h : IsRun cs) : Field cs (decimal cs)
  | signed {cs : List Char} (h : IsRun cs) : Field ('+' :: cs) (decimal cs)

/-- A width: nothing, or a number. -/
inductive Width : List Char → Nat → Prop where
  | absent : Width [] 0
  | given {cs : List Char} {n : Nat} (h : Field cs n) : Width cs n

/-- Places: nothing, a bare point, or a number after a point. -/
inductive Places : List Char → Option Nat → Prop where
  | absent : Places [] none
  | bare : Places ['.'] (some 0)
  | given {cs : List Char} {n : Nat} (h : Field cs n) : Places ('.' :: cs) (some n)

/-- The text is the format's width, its places and its letter, with no places for integers and
no number above 64. -/
structure Parts (cs front rear : List Char) (f : NumberFormat) : Prop where
  eq : cs = front ++ rear ++ [letter f.conversion]
  width : Width front f.width
  places : Places rear f.precision
  integer : f.conversion = .integer → rear = []
  width_le : f.width ≤ 64
  places_le : ∀ p, f.precision = some p → p ≤ 64

/-- The text spells the format. -/
def Spells (cs : List Char) (f : NumberFormat) : Prop :=
  ∃ front rear, Parts cs front rear f

/-- What is left of a text without the blanks at both ends and then without the per cent signs in
front. -/
def Stripped (cs rest : List Char) : Prop :=
  ∃ left signs right, Framed cs left (List.replicate signs '%' ++ rest) right ∧
    ∀ c ∈ rest.head?, c ≠ '%'

theorem stripped_iff {rest : List Char} : Stripped cs rest ↔ rest = directive cs := by
  constructor
  · rintro ⟨left, signs, right, hframed, hrest⟩
    rw [directive, hframed.trim_eq, Text.dropWhile_append_eq]
    · exact fun c hc => beq_iff_eq.2 (List.eq_of_mem_replicate hc)
    · exact fun c hc => beq_eq_false_iff_ne.2 (hrest c hc)
  · rintro rfl
    obtain ⟨left, right, hframed⟩ := Text.exists_framed_trim cs
    let signs := (Text.trim cs).takeWhile (· == '%')
    have hsigns : signs = List.replicate signs.length '%' :=
      List.eq_replicate_of_mem fun c hc =>
        beq_iff_eq.1 (List.mem_takeWhile_imp (p := (· == '%')) hc)
    have htrim : List.replicate signs.length '%' ++ directive cs = Text.trim cs := by
      rw [← hsigns]
      exact List.takeWhile_append_dropWhile
    refine ⟨left, signs.length, right, htrim ▸ hframed, fun c hc => ?_⟩
    exact beq_eq_false_iff_ne.1 (Text.head?_dropWhile _ _ c hc)

/-! ## The pieces -/

theorem field?_eq_some_iff : field? cs = some n ↔ Field cs n := by
  constructor
  · intro h
    unfold field? at h
    split at h
    · obtain ⟨hrun, rfl⟩ := value?_eq_some_iff.1 h
      exact .signed hrun
    · obtain ⟨hrun, rfl⟩ := value?_eq_some_iff.1 h
      exact .plain hrun
  · rintro (⟨hrun⟩ | ⟨hrun⟩)
    · unfold field?
      split
      · -- A plus sign is no digit.
        exact absurd (hrun.2 '+' (List.mem_cons_self ..)) (by decide)
      · exact value?_eq_some_iff.2 ⟨hrun, rfl⟩
    · exact value?_eq_some_iff.2 ⟨hrun, rfl⟩

theorem Field.ne_nil (h : Field cs n) : cs ≠ [] := by
  cases h with
  | plain h => exact h.1
  | signed h => exact List.cons_ne_nil _ _

theorem Field.no_point (h : Field cs n) : ∀ c ∈ cs, c ≠ '.' := by
  have hrun : ∀ {ds : List Char}, IsRun ds → ∀ c ∈ ds, c ≠ '.' := by
    rintro ds hds c hc rfl
    exact absurd (hds.2 _ hc) (by decide)
  cases h with
  | plain h => exact hrun h
  | signed h =>
    intro c hc
    rcases List.mem_cons.1 hc with rfl | hc
    · decide
    · exact hrun h c hc

theorem Width.no_point (h : Width cs n) : ∀ c ∈ cs, c ≠ '.' := by
  cases h with
  | absent => exact nofun
  | given h => exact h.no_point

theorem Places.head?_eq (h : Places cs p) : ∀ c ∈ cs.head?, c = '.' := by
  cases h <;> simp

theorem width?_eq_some_iff : width? cs = some n ↔ Width cs n := by
  cases cs with
  | nil =>
    constructor
    · rintro ⟨⟩
      exact .absent
    · rintro (_ | ⟨h⟩)
      · rfl
      · exact absurd rfl h.ne_nil
  | cons c cs =>
    refine Iff.trans field?_eq_some_iff ⟨.given, ?_⟩
    rintro (_ | h)
    exact h

/-- Of the text in front of the letter, the places are what begins with the first point. -/
theorem precision?_eq_some_iff (hpoint : ∀ c ∈ cs.head?, c = '.') :
    precision? cs = some p ↔ Places cs p := by
  match cs with
  | [] =>
    constructor
    · rintro ⟨⟩
      exact .absent
    · rintro ⟨⟩
      rfl
  | [c] =>
    obtain rfl : c = '.' := hpoint c rfl
    constructor
    · rintro ⟨⟩
      exact .bare
    · rintro (_ | _ | h)
      · rfl
      · exact absurd rfl h.ne_nil
  | c :: d :: cs =>
    obtain rfl : c = '.' := hpoint c rfl
    simp only [precision?, Option.map_eq_some_iff, field?_eq_some_iff]
    constructor
    · rintro ⟨n, hn, rfl⟩
      exact .given hn
    · rintro (_ | _ | hn)
      exact ⟨_, hn, rfl⟩

/-- The width ends at the first point, where the places begin. -/
theorem split_at_point {width places : List Char} (hwidth : ∀ c ∈ width, c ≠ '.')
    (hplaces : ∀ c ∈ places.head?, c = '.') :
    (width ++ places).takeWhile (· != '.') = width ∧
      (width ++ places).dropWhile (· != '.') = places := by
  have hpos : ∀ c ∈ width, (c != '.') = true := fun c hc => bne_iff_ne.2 (hwidth c hc)
  have hdrop : (width ++ places).dropWhile (· != '.') = places :=
    Text.dropWhile_append_eq hpos fun c hc => bne_eq_false_iff_eq.2 (hplaces c hc)
  refine ⟨?_, hdrop⟩
  have hsplit := List.takeWhile_append_dropWhile (p := (· != '.')) (l := width ++ places)
  rw [hdrop] at hsplit
  exact List.append_cancel_right hsplit

theorem head?_dropWhile_point (body : List Char) :
    ∀ c ∈ (body.dropWhile (· != '.')).head?, c = '.' :=
  fun c hc => bne_eq_false_iff_eq.1 (Text.head?_dropWhile _ body c hc)

/-! ## The whole -/

theorem admissible_iff : f.admissible = true ↔ f.width ≤ 64 ∧
    (∀ p, f.precision = some p → p ≤ 64) ∧ (f.conversion = .integer → f.precision = none) := by
  change _ ↔ f.width ≤ maxField ∧ (∀ p, f.precision = some p → p ≤ maxField) ∧ _
  obtain ⟨width, precision, conversion⟩ := f
  cases precision <;> cases conversion <;> simp [admissible]

theorem conversion?_eq_some_iff {c : Char} {conversion : Conversion} :
    conversion? c = some conversion ↔ c = letter conversion := by
  constructor
  · intro h
    unfold conversion? at h
    split at h <;> cases h <;> rfl
  · rintro rfl
    cases conversion <;> rfl

/-- The format of a text in front of its letter. -/
def ofBody? (conversion : Conversion) (body : List Char) : Option NumberFormat :=
  match width? (body.takeWhile (· != '.')), precision? (body.dropWhile (· != '.')) with
  | some width, some precision =>
    let f : NumberFormat := ⟨width, precision, conversion⟩
    if f.admissible then some f else none
  | _, _ => none

theorem parseDirective?_eq (cs : List Char) :
    parseDirective? cs = (cs.getLast?.bind conversion?).bind (ofBody? · cs.dropLast) := by
  unfold parseDirective? ofBody?
  dsimp only
  cases cs.getLast?.bind conversion? with
  | none => rfl
  | some conversion =>
    cases width? (cs.dropLast.takeWhile (· != '.')) <;>
      cases precision? (cs.dropLast.dropWhile (· != '.')) <;> rfl

theorem Places.eq_nil_iff (h : Places cs p) : p = .none ↔ cs = [] := by
  cases h <;> simp

theorem Parts.admissible {front rear : List Char} (h : Parts cs front rear f) :
    f.admissible = true :=
  admissible_iff.2 ⟨h.width_le, h.places_le, fun hc => h.places.eq_nil_iff.2 (h.integer hc)⟩

theorem ofBody?_eq_some_iff {conversion : Conversion} :
    ofBody? conversion body = some f ↔
      f.conversion = conversion ∧ Spells (body ++ [letter f.conversion]) f := by
  constructor
  · intro h
    unfold ofBody? at h
    split at h
    · next width precision hwidth hprecision =>
      simp only at h
      split at h
      · next hadmissible =>
        cases h
        rw [width?_eq_some_iff] at hwidth
        rw [precision?_eq_some_iff (head?_dropWhile_point body)] at hprecision
        obtain ⟨hwidthLe, hplacesLe, hinteger⟩ := admissible_iff.1 hadmissible
        refine ⟨rfl, _, _, ⟨?_, hwidth, hprecision, ?_, hwidthLe, hplacesLe⟩⟩
        · rw [List.takeWhile_append_dropWhile]
        · exact fun hc => hprecision.eq_nil_iff.1 (hinteger hc)
      · cases h
    · cases h
  · rintro ⟨rfl, front, rear, hparts⟩
    obtain rfl : body = front ++ rear := List.append_cancel_right hparts.eq
    obtain ⟨htake, hdrop⟩ := split_at_point hparts.width.no_point hparts.places.head?_eq
    rw [ofBody?, htake, hdrop, width?_eq_some_iff.2 hparts.width,
      (precision?_eq_some_iff hparts.places.head?_eq).2 hparts.places]
    exact if_pos hparts.admissible

theorem parseDirective?_eq_some_iff : parseDirective? cs = some f ↔ Spells cs f := by
  rw [parseDirective?_eq]
  cases cs using List.reverseRecOn with
  | nil =>
    refine iff_of_false nofun ?_
    rintro ⟨front, rear, hparts⟩
    exact List.append_ne_nil_of_right_ne_nil _ (List.cons_ne_nil _ _) hparts.eq.symm
  | append_singleton body c =>
    rw [List.getLast?_concat, List.dropLast_concat, Option.bind_some, Option.bind_eq_some_iff]
    simp only [conversion?_eq_some_iff, ofBody?_eq_some_iff]
    constructor
    · rintro ⟨_, rfl, rfl, hspells⟩
      exact hspells
    · rintro hspells
      obtain ⟨front, rear, hparts⟩ := hspells
      obtain rfl : c = letter f.conversion :=
        (List.cons.inj (List.append_inj_right' hparts.eq rfl)).1
      exact ⟨_, rfl, rfl, _, _, hparts⟩

theorem parse_eq_ok_iff {s : String} : parse s = .ok f ↔ Spells (directive s.toList) f := by
  rw [← parseDirective?_eq_some_iff]
  unfold parse
  cases parseDirective? (directive s.toList) <;> simp

theorem parse_eq_error_iff {s : String} :
    parse s = .error (.invalidFormat s) ↔ ∀ f, ¬ Spells (directive s.toList) f := by
  simp only [← parseDirective?_eq_some_iff]
  unfold parse
  cases parseDirective? (directive s.toList) <;> simp

/-! ## The letter as the last byte -/

/-- Reads a format, with its letter cut off as the last byte. Nothing comes of it if the cut cannot
be made. -/
def parseCutting? (s : String) : Option (Except ValueError NumberFormat) :=
  let rest := String.ofList (directive s.toList)
  match rest.toList.getLast?.bind conversion? with
  | none => some (.error (.invalidFormat s))
  | some conversion =>
    (Text.upTo? rest (rest.utf8ByteSize - 1)).map fun body =>
      match ofBody? conversion body.toList with
      | some f => .ok f
      | none => .error (.invalidFormat s)

theorem upTo?_letter (body : List Char) (conversion : Conversion) :
    let rest := String.ofList (body ++ [letter conversion])
    Text.upTo? rest (rest.utf8ByteSize - 1) = some (String.ofList body) := by
  have hsize : (String.ofList [letter conversion]).utf8ByteSize = 1 := by
    cases conversion <;> rfl
  intro rest
  have hrest : rest = String.ofList body ++ String.ofList [letter conversion] :=
    String.ofList_append
  rw [hrest, String.utf8ByteSize_append, hsize, Nat.add_sub_cancel, Text.upTo?_append]

/-- **The cut can always be made**, and what is read is the same. -/
theorem parseCutting?_eq (s : String) : parseCutting? s = some (parse s) := by
  unfold parseCutting? parse
  rw [parseDirective?_eq]
  dsimp only
  rw [String.toList_ofList]
  cases directive s.toList using List.reverseRecOn with
  | nil => rfl
  | append_singleton body c =>
    rw [List.getLast?_concat, List.dropLast_concat, Option.bind_some]
    cases hconversion : conversion? c with
    | none => rfl
    | some conversion =>
      obtain rfl := conversion?_eq_some_iff.1 hconversion
      cases hbody : ofBody? conversion body <;>
        simp only [upTo?_letter, Option.map_some, Option.bind_some, String.toList_ofList, hbody]

/-! ## Parsing -/

/-- **A text is read just if, stripped of blanks and per cent signs, it spells a format**, and that
format is what is read. Any other text is refused with an error that carries it as it was given. To
strip a text is possible in one way only, and to cut off its letter by bytes always succeeds. -/
theorem parse_iff_spells (s : String) :
    let rest := directive s.toList
    (∀ rest', Stripped s.toList rest' ↔ rest' = rest) ∧
    (∀ f, parse s = .ok f ↔ Spells rest f) ∧
    (parse s = .error (.invalidFormat s) ↔ ∀ f, ¬ Spells rest f) ∧
    parseCutting? s = some (parse s) :=
  ⟨fun _ => stripped_iff, fun _ => parse_eq_ok_iff, parse_eq_error_iff, parseCutting?_eq s⟩

example : parse "\u2003%%+007.f\u00a0" = .ok ⟨7, some 0, .fixed⟩ := by rfl

end NumberFormat

end MachinePanel
