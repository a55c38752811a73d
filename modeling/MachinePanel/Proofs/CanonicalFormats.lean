/-
The canonical text of a number format. The text of a format leaves out what the parser fills in, a
width of zero and places that are not given, and writes numbers without plus signs and leading
zeros. It is one of the texts that stand for the format (`spells_toChars`), so that parsing gives
the format back, provided that the format keeps the limits. Those that are read from a text all do
(`exists_parse_iff`). So texts stand for the same format just if they have the same canonical form
(`text_canonical`).
-/
import MachinePanel.Element.Props
import MachinePanel.Proofs.FormatGrammar

namespace MachinePanel

open Numeral (IsRun decimal digits)

theorem Numeral.isRun_digits (n : Nat) : IsRun (digits n) ∧ n = decimal (digits n) :=
  value?_eq_some_iff.1 (value?_digits n)

namespace NumberFormat

variable {f : NumberFormat} {s : String}

/-! ## The text of a format -/

theorem field_digits (n : Nat) : Field (digits n) n := by
  obtain ⟨hrun, hn⟩ := Numeral.isRun_digits n
  have hfield := Field.plain hrun
  rwa [← hn] at hfield

/-- **The text of a format spells it**, if the format keeps the limits. -/
theorem spells_toChars (h : f.admissible = true) : Spells f.toChars f := by
  obtain ⟨hwidthLe, hplacesLe, hinteger⟩ := admissible_iff.1 h
  refine ⟨_, _, rfl, ?_, ?_, fun hc => ?_, hwidthLe, hplacesLe⟩
  · split
    · next hzero =>
      rw [hzero]
      exact .absent
    · exact .given (field_digits f.width)
  · cases f.precision with
    | none => exact .absent
    | some p => exact .given (field_digits p)
  · rw [hinteger hc]

/-- A character that is left alone at the ends of a text. -/
def IsPlain (c : Char) : Prop :=
  Text.isBlank c = false ∧ c ≠ '%'

theorem isPlain_of_isDigit {c : Char} (h : c.isDigit = true) : IsPlain c := by
  have hbounds : 48 ≤ c.toNat ∧ c.toNat ≤ 57 := by
    simp only [Char.isDigit, Bool.and_eq_true, decide_eq_true_eq] at h
    exact h
  refine ⟨?_, ?_⟩
  · simp only [Text.isBlank, Bool.or_eq_false_iff, Bool.and_eq_false_iff, decide_eq_false_iff_not,
      beq_eq_false_iff_ne]
    omega
  · rintro rfl
    exact absurd hbounds.1 (by decide)

theorem isPlain_digits (n : Nat) : ∀ c ∈ digits n, IsPlain c :=
  fun c hc => isPlain_of_isDigit ((Numeral.isRun_digits n).1.2 c hc)

theorem isPlain_letter (conversion : Conversion) : IsPlain (letter conversion) := by
  cases conversion <;> exact ⟨by decide, by decide⟩

theorem isPlain_toChars (f : NumberFormat) : ∀ c ∈ f.toChars, IsPlain c := by
  intro c hc
  simp only [toChars, List.mem_append, List.mem_singleton] at hc
  rcases hc with (hc | hc) | rfl
  · split at hc
    · cases hc
    · exact isPlain_digits _ c hc
  · split at hc
    · cases hc
    · next p _ =>
      rcases List.mem_cons.1 hc with rfl | hc
      · exact ⟨by decide, by decide⟩
      · exact isPlain_digits p c hc
  · exact isPlain_letter f.conversion

theorem directive_toChars (f : NumberFormat) : directive f.toChars = f.toChars := by
  have hplain := f.isPlain_toChars
  have hframed : Text.Framed f.toChars [] (List.replicate 0 '%' ++ f.toChars) [] :=
    { eq := (List.append_nil _).symm
      left := nofun
      right := nofun
      first := fun c hc => (hplain c (List.mem_of_mem_head? hc)).1
      last := fun c hc => (hplain c (List.mem_of_mem_getLast? hc)).1 }
  exact (stripped_iff.1
    ⟨[], 0, [], hframed, fun c hc => (hplain c (List.mem_of_mem_head? hc)).2⟩).symm

/-! ## Parsing what is printed -/

theorem parse_text (h : f.admissible = true) : parse f.text = .ok f := by
  rw [parse_eq_ok_iff, text, String.toList_ofList, directive_toChars]
  exact spells_toChars h

theorem admissible_of_parse (h : parse s = .ok f) : f.admissible = true := by
  obtain ⟨front, rear, hparts⟩ := parse_eq_ok_iff.1 h
  exact hparts.admissible

/-- **The formats that can be read** are those that keep the limits. -/
theorem exists_parse_iff : (∃ s, parse s = .ok f) ↔ f.admissible = true :=
  ⟨fun ⟨_, h⟩ => admissible_of_parse h, fun h => ⟨f.text, parse_text h⟩⟩

/-- The canonical form of a text that can be read: the text of the format that it stands for. -/
def canonical? (s : String) : Option String :=
  (parse s).toOption.map text

theorem canonical?_eq (h : parse s = .ok f) : canonical? s = some f.text := by
  rw [canonical?, h]
  rfl

theorem text_inj {g : NumberFormat} (hf : f.admissible = true) (hg : g.admissible = true) :
    f.text = g.text ↔ f = g := by
  refine ⟨fun htext => ?_, congrArg text⟩
  have hparse := parse_text hf
  rw [htext, parse_text hg] at hparse
  exact (Except.ok.inj hparse).symm

/-- **To print and to parse are inverse to each other.** The text of a format that has been read is
read as the same format, in a record too, and so are the texts of the two defaults. The text is the
canonical form of what was read, and its own canonical form. Two texts that can be read stand for
the same format if and only if their canonical forms are equal. -/
theorem text_canonical :
    (∀ s f, parse s = .ok f → parse f.text = .ok f ∧
      Props.formatOfJson? (.text f.text) = some f ∧
      canonical? s = some f.text ∧ canonical? f.text = some f.text) ∧
    (parse NumberFormat.float.text = .ok .float ∧
      parse NumberFormat.integer.text = .ok .integer) ∧
    (∀ s s' f f', parse s = .ok f → parse s' = .ok f' →
      (f = f' ↔ canonical? s = canonical? s')) := by
  refine ⟨fun s f h => ?_, ⟨parse_text (by decide), parse_text (by decide)⟩,
    fun s s' f f' h h' => ?_⟩
  · have hparse := parse_text (admissible_of_parse h)
    refine ⟨hparse, ?_, canonical?_eq h, canonical?_eq hparse⟩
    have hrecord : Props.formatOfJson? (.text f.text) = (parse f.text).toOption := rfl
    rw [hrecord, hparse]
    rfl
  · rw [canonical?_eq h, canonical?_eq h', Option.some.injEq,
      text_inj (admissible_of_parse h) (admissible_of_parse h')]

theorem text_canonical_signed :
    let f : NumberFormat := ⟨7, some 0, .fixed⟩
    parse " %+007.f" = .ok f ∧ parse "7.+00f" = .ok f ∧ f.text = "7.0f" ∧
      parse "7.0f" = .ok f ∧ canonical? " %+007.f" = canonical? "7.+00f" := by
  intro f
  have h : parse " %+007.f" = .ok f := by rfl
  have h' : parse "7.+00f" = .ok f := by rfl
  obtain ⟨hread, -, hcanonical⟩ := text_canonical
  have htext : f.text = "7.0f" := by decide +kernel
  have hparse := (hread _ f h).1
  rw [htext] at hparse
  exact ⟨h, h', htext, hparse, (hcanonical _ _ f f h h').1 rfl⟩

end NumberFormat

end MachinePanel
