/-
Reading back JSON text. A value whose numbers are integers and whose keys and strings
have their characters is `Written`, and reading its compact text gives it back
(`parse?_toText`). The readers go through a text as the printer writes it. So each of
them has a lemma on what it makes of the printer's part with anything after it, as
long as what comes after a number does not carry it on (`EndsNumber`).
-/
import MachinePanel.Json.Parser
import MachinePanel.Json.Printer

namespace MachinePanel.Json

/-- A value whose text says everything about it. -/
inductive Written : Json → Prop where
  | null : Written .null
  | bool (b : Bool) : Written (.bool b)
  | int (n : Int) : Written (.int n)
  | text (s : String) : Written (.text s)
  | arr {items : List Json} : (∀ x ∈ items, Written x) → Written (.arr items)
  | record {members : List (String × Json)} :
    (∀ m ∈ members, Written m.2) → Written (.record members)

/-- What comes after a number does not carry it on. -/
def EndsNumber (rest : List Char) : Prop :=
  ∀ c ∈ rest.head?, Numeral.digitValue? c = none ∧ c ≠ '.' ∧ c ≠ 'e' ∧ c ≠ 'E'

theorem endsNumber_nil : EndsNumber [] := nofun

theorem endsNumber_cons {c : Char} (cs : List Char)
    (h : Numeral.digitValue? c = none ∧ c ≠ '.' ∧ c ≠ 'e' ∧ c ≠ 'E') : EndsNumber (c :: cs) := by
  intro c' hc'
  rwa [← Option.some_inj.1 hc']

/-! ## Numbers -/

theorem digitsOfNat_lt_ten (n : Nat) : ∀ d ∈ digitsOfNat n, d < 10 := by
  induction n using digitsOfNat.induct with
  | case1 n h =>
    rw [digitsOfNat, if_pos h]
    exact fun d hd => List.mem_singleton.1 hd ▸ h
  | case2 n h ih =>
    rw [digitsOfNat, if_neg h]
    intro d hd
    rcases List.mem_append.1 hd with hd | hd
    · exact ih d hd
    · rw [List.mem_singleton.1 hd]
      exact Nat.mod_lt n (by decide)

/-- The first digit is no zero, unless the number is. -/
theorem head_digitsOfNat (n : Nat) :
    ∃ d ds, digitsOfNat n = d :: ds ∧ (d = 0 → ds = []) := by
  induction n using digitsOfNat.induct with
  | case1 n h => exact ⟨n, [], by rw [digitsOfNat, if_pos h], fun _ => rfl⟩
  | case2 n h ih =>
    obtain ⟨d, ds, heq, hzero⟩ := ih
    refine ⟨d, ds ++ [n % 10], by rw [digitsOfNat, if_neg h, heq, List.cons_append], fun hd => ?_⟩
    -- A lone zero in front would mean that the number was below ten.
    have hn := natOfDigits_digitsOfNat (n / 10)
    rw [heq, hzero hd, hd] at hn
    have : n / 10 = 0 := hn.symm
    omega

theorem digitRun_digits {ds : List Nat} (hds : ∀ d ∈ ds, d < 10) {rest : List Char}
    (hrest : EndsNumber rest) : digitRun (ds.map Numeral.digit ++ rest) = (ds, rest) := by
  induction ds with
  | nil =>
    cases rest with
    | nil => rfl
    | cons c cs =>
      have hc := (hrest c rfl).1
      simp [digitRun, hc]
  | cons d ds ih =>
    have hd := Numeral.digitValue?_digit (hds d List.mem_cons_self)
    have htail := ih fun d' hd' => hds d' (List.mem_cons_of_mem d hd')
    simp only [digitRun, Prod.mk.injEq] at htail
    simp [digitRun, hd, htail.1, htail.2]

theorem wholePart_digits (n : Nat) {rest : List Char} (hrest : EndsNumber rest) :
    wholePart ((digitsOfNat n).map Numeral.digit ++ rest) = some (digitsOfNat n, rest) := by
  have hrun := digitRun_digits (digitsOfNat_lt_ten n) hrest
  obtain ⟨d, ds, heq, hzero⟩ := head_digitsOfNat n
  rw [wholePart, digits, hrun, heq]
  cases d with
  | zero =>
    rw [hzero rfl]
    rfl
  | succ d => rfl

theorem fractionPart_of_endsNumber {rest : List Char} (hrest : EndsNumber rest) :
    fractionPart rest = some (none, rest) := by
  unfold fractionPart
  split
  · exact absurd rfl (hrest '.' rfl).2.1
  · rfl

theorem exponentPart_of_endsNumber {rest : List Char} (hrest : EndsNumber rest) :
    exponentPart rest = some (none, rest) := by
  cases rest with
  | nil => rfl
  | cons c cs =>
    obtain ⟨-, -, he, hE⟩ := hrest c rfl
    simp [exponentPart, he, hE]

theorem unsignedNumber_digits (negative : Bool) (n : Nat) {rest : List Char}
    (hrest : EndsNumber rest) :
    unsignedNumber negative ((digitsOfNat n).map Numeral.digit ++ rest) =
      some ({ negative, whole := digitsOfNat n }, rest) := by
  rw [unsignedNumber, wholePart_digits n hrest]
  simp only [fractionPart_of_endsNumber hrest, exponentPart_of_endsNumber hrest, Option.map_some]

/-- A digit is none of the characters that open anything else. -/
theorem digit_ne {d : Nat} (h : d < 10) {c : Char}
    (hc : c ∈ ['-', 'n', 't', 'f', '"', '[', '\x7b', ']', ' ', '\n', '\t', '\r']) :
    Numeral.digit d ≠ c := by
  have hall : (List.range 10).all fun d =>
      ['-', 'n', 't', 'f', '"', '[', '\x7b', ']', ' ', '\n', '\t', '\r'].all
        (Numeral.digit d != ·) := by decide
  simpa using List.all_eq_true.1 (List.all_eq_true.1 hall d (List.mem_range.2 h)) c hc

theorem number_render (n : Int) {rest : List Char} (hrest : EndsNumber rest) :
    number (renderNumber (.ofInt n) ++ rest) = some (.ofInt n, rest) := by
  have hread := fun negative => unsignedNumber_digits negative n.natAbs hrest
  obtain ⟨d, ds, heq, -⟩ := head_digitsOfNat n.natAbs
  simp only [renderNumber, Number.ofInt, List.append_nil]
  by_cases hneg : n < 0
  · simp only [hneg, decide_true, ↓reduceIte, List.cons_append, List.nil_append]
    exact hread true
  · simp only [hneg, decide_false, Bool.false_eq_true, ↓reduceIte, List.nil_append]
    rw [number]
    · exact hread false
    · intro cs hcs
      rw [heq, List.map_cons, List.cons_append, List.cons.injEq] at hcs
      exact digit_ne (digitsOfNat_lt_ten _ d (heq ▸ List.mem_cons_self)) (by decide) hcs.1

/-! ## Strings -/

theorem hexCode?_control {n : Nat} (h : n < 0x20) :
    hexCode? ['0', '0', hexDigit (n / 16), hexDigit (n % 16)] = some n := by
  have hall : ∀ n : Fin 32,
      hexCode? ['0', '0', hexDigit (n / 16), hexDigit (n % 16)] = some n.val := by
    decide
  exact hall ⟨n, h⟩

/-- However a character is written, it is one piece of the string. -/
theorem pieces_renderChar (c : Char) (cs : List Char) :
    pieces (renderChar c ++ cs) = (pieces cs).map fun (ps, rest) => (.char c :: ps, rest) := by
  unfold renderChar
  split
  iterate 7 rfl
  · split
    · next hcontrol =>
      have hpiece : pieceOfCode c.toNat = .char c := by
        rw [pieceOfCode, if_neg (by omega), Char.ofNat_toNat]
      simp only [List.cons_append, List.nil_append, pieces, hexCode?_control hcontrol, hpiece]
    · next hquote hbackslash _ _ _ _ _ hcontrol =>
      rw [List.singleton_append, pieces]
      · have hne : c ≠ '\\' := hbackslash
        simp [hcontrol, hne]
      · exact hquote
      · exact fun _ _ _ _ _ h _ => hbackslash h
      · exact fun _ _ h _ => hbackslash h

theorem pieces_render (cs rest : List Char) :
    pieces (cs.flatMap renderChar ++ '"' :: rest) = some (cs.map .char, rest) := by
  induction cs with
  | nil => rfl
  | cons c cs ih =>
    rw [List.flatMap_cons, List.append_assoc, pieces_renderChar, ih]
    rfl

theorem joinPieces_char (cs : List Char) : joinPieces (cs.map .char) = some cs := by
  induction cs with
  | nil => rfl
  | cons c cs ih =>
    rw [List.map_cons, joinPieces, ih]
    rfl

theorem string_render (s : String) (rest : List Char) :
    string (s.toList.flatMap renderChar ++ '"' :: rest) = some (some s, rest) := by
  simp only [string, pieces_render, Option.map_some, joinPieces_char, String.ofList_toList]

/-! ## Values -/

/-- The characters a number starts with. -/
def numberStarts : List Char :=
  '-' :: (List.range 10).map Numeral.digit

/-- The characters a value starts with. -/
def valueStarts : List Char :=
  ['n', 't', 'f', '"', '[', '\x7b'] ++ numberStarts

theorem value_number (fuel : Nat) {c : Char} (hc : c ∈ numberStarts) (cs : List Char) :
    value (fuel + 1) (c :: cs) = (number (c :: cs)).map fun (n, rest) => (.num n, rest) := by
  simp only [numberStarts, List.range, List.range.loop, List.map_cons, List.map_nil, List.mem_cons,
    List.not_mem_nil, or_false] at hc
  rcases hc with rfl | rfl | rfl | rfl | rfl | rfl | rfl | rfl | rfl | rfl | rfl <;> rfl

theorem exists_renderNumber (n : Int) :
    ∃ c cs, renderNumber (.ofInt n) = c :: cs ∧ c ∈ numberStarts := by
  obtain ⟨d, ds, heq, -⟩ := head_digitsOfNat n.natAbs
  have hd : d < 10 := digitsOfNat_lt_ten n.natAbs d (heq ▸ List.mem_cons_self)
  simp only [renderNumber, Number.ofInt, heq, List.append_nil, List.map_cons]
  split
  · exact ⟨'-', _, rfl, List.mem_cons_self⟩
  · exact ⟨Numeral.digit d, _, rfl,
      List.mem_cons_of_mem _ (List.mem_map_of_mem (List.mem_range.2 hd))⟩

theorem Written.exists_render {v : Json} (h : Written v) :
    ∃ c cs, render v = c :: cs ∧ c ∈ valueStarts := by
  cases h with
  | null => exact ⟨_, _, rfl, by decide⟩
  | bool b => cases b <;> exact ⟨_, _, rfl, by decide⟩
  | int n =>
    obtain ⟨c, cs, heq, hc⟩ := exists_renderNumber n
    exact ⟨c, cs, heq, List.mem_append_right _ hc⟩
  | text s => exact ⟨_, _, rfl, by decide⟩
  | arr h => exact ⟨_, _, rfl, by decide⟩
  | record h => exact ⟨_, _, rfl, by decide⟩

theorem skip_cons {c : Char} (h : isSpace c = false) (cs : List Char) : skip (c :: cs) = c :: cs :=
  List.dropWhile_cons_of_neg (by rw [h]; exact Bool.false_ne_true)

theorem not_space_of_starts {c : Char} (h : c ∈ valueStarts) : isSpace c = false ∧ c ≠ ']' := by
  have hall : valueStarts.all fun c => !isSpace c && c != ']' := by decide
  simpa using List.all_eq_true.1 hall c h

/-- The value is read back off its text, given two steps for each of its characters. -/
def Reads (v : Json) : Prop :=
  ∀ fuel rest, 2 * (render v).length ≤ fuel → EndsNumber rest →
    value fuel (render v ++ rest) = some (v, rest)

theorem reads_int (n : Int) : Reads (.int n) := by
  intro fuel rest hfuel hrest
  obtain ⟨c, cs, heq, hc⟩ := exists_renderNumber n
  have hnumber := number_render n hrest
  simp only [int, render, heq, List.length_cons, List.cons_append] at hfuel hnumber ⊢
  obtain ⟨fuel, rfl⟩ : ∃ k, fuel = k + 1 := ⟨fuel - 1, by omega⟩
  rw [value_number fuel hc, hnumber]
  rfl

theorem reads_text (s : String) : Reads (.text s) := by
  intro fuel rest hfuel _
  simp only [text, render, renderString, Option.getD_some, List.cons_append, List.append_assoc,
    List.nil_append, List.length_cons] at hfuel ⊢
  obtain ⟨fuel, rfl⟩ : ∃ k, fuel = k + 1 := ⟨fuel - 1, by omega⟩
  rw [value, skip_cons rfl]
  simp only [string_render, Option.map_some]

theorem renderItems_cons_cons (x y : Json) (ys : List Json) :
    renderItems (x :: y :: ys) = render x ++ ',' :: renderItems (y :: ys) :=
  rfl

/-- After an item come a comma or the closing bracket, neither of which carries on a number. -/
theorem items_render {xs : List Json} (hreads : ∀ x ∈ xs, Reads x) (hne : xs ≠ []) :
    ∀ fuel rest, 2 * (renderItems xs).length + 1 ≤ fuel →
      items fuel (renderItems xs ++ ']' :: rest) = some (xs, rest) := by
  induction xs with
  | nil => exact absurd rfl hne
  | cons x xs ih =>
    intro fuel rest hfuel
    obtain ⟨fuel, rfl⟩ : ∃ k, fuel = k + 1 := ⟨fuel - 1, by omega⟩
    have hx := hreads x List.mem_cons_self
    cases xs with
    | nil =>
      rw [renderItems] at hfuel ⊢
      rw [items, hx fuel _ (by omega) (endsNumber_cons _ (by decide))]
      rfl
    | cons y ys =>
      have hxs := ih (fun z hz => hreads z (List.mem_cons_of_mem x hz)) (List.cons_ne_nil y ys)
      rw [renderItems_cons_cons] at hfuel ⊢
      rw [List.length_append, List.length_cons] at hfuel
      rw [List.append_assoc, List.cons_append, items,
        hx fuel _ (by omega) (endsNumber_cons _ (by decide))]
      simp only [skip_cons (c := ',') rfl, hxs fuel rest (by omega), Option.map_some]

/-- The first character of the items, which is none of a closing bracket. -/
theorem exists_renderItems {x : Json} (hx : Written x) (xs : List Json) :
    ∃ c cs, renderItems (x :: xs) = c :: cs ∧ c ∈ valueStarts := by
  obtain ⟨c, cs, heq, hc⟩ := hx.exists_render
  cases xs with
  | nil => exact ⟨c, cs, heq, hc⟩
  | cons y ys => exact ⟨c, _, by rw [renderItems_cons_cons, heq, List.cons_append], hc⟩

theorem reads_arr {xs : List Json} (hwritten : ∀ x ∈ xs, Written x) (hreads : ∀ x ∈ xs, Reads x) :
    Reads (.arr xs) := by
  intro fuel rest hfuel _
  simp only [render, List.cons_append, List.append_assoc, List.nil_append, List.length_cons,
    List.length_append] at hfuel ⊢
  obtain ⟨fuel, rfl⟩ : ∃ k, fuel = k + 1 := ⟨fuel - 1, by omega⟩
  rw [value, skip_cons rfl]
  cases xs with
  | nil => rfl
  | cons x xs =>
    have hitems := items_render hreads (List.cons_ne_nil x xs) fuel rest (by omega)
    obtain ⟨c, cs, heq, hc⟩ := exists_renderItems (hwritten x List.mem_cons_self) xs
    obtain ⟨hspace, hne⟩ := not_space_of_starts hc
    rw [heq, List.cons_append] at hitems ⊢
    simp only [skip_cons hspace]
    split
    · next h => exact absurd (List.cons.inj h).1 hne
    · rw [hitems]
      rfl

theorem renderMembers_cons_cons (m n : Option String × Json) (ms : List (Option String × Json)) :
    renderMembers (m :: n :: ms) =
      renderString (m.1.getD "") ++ ':' :: render m.2 ++ ',' :: renderMembers (n :: ms) :=
  rfl

theorem members_render {ms : List (String × Json)} (hreads : ∀ m ∈ ms, Reads m.2) (hne : ms ≠ []) :
    ∀ fuel rest, 2 * (renderMembers (ms.map fun m => (some m.1, m.2))).length + 1 ≤ fuel →
      members fuel (renderMembers (ms.map fun m => (some m.1, m.2)) ++ '\x7d' :: rest) =
        some (ms.map fun m => (some m.1, m.2), rest) := by
  induction ms with
  | nil => exact absurd rfl hne
  | cons m ms ih =>
    intro fuel rest hfuel
    obtain ⟨fuel, rfl⟩ : ∃ k, fuel = k + 1 := ⟨fuel - 1, by omega⟩
    have hm := hreads m List.mem_cons_self
    cases ms with
    | nil =>
      simp only [List.map_cons, List.map_nil, renderMembers, renderString, Option.getD_some,
        List.cons_append, List.append_assoc, List.nil_append, List.length_cons, List.length_append]
        at hfuel ⊢
      rw [members, skip_cons rfl]
      simp only [string_render, skip_cons (c := ':') rfl]
      rw [hm fuel _ (by omega) (endsNumber_cons _ (by decide))]
      rfl
    | cons n ms =>
      have hms := ih (fun z hz => hreads z (List.mem_cons_of_mem m hz)) (List.cons_ne_nil n ms)
      rw [List.map_cons] at hms ⊢
      rw [List.map_cons, List.map_cons, renderMembers_cons_cons] at hfuel
      rw [List.map_cons, renderMembers_cons_cons]
      simp only [renderString, Option.getD_some, List.cons_append, List.append_assoc,
        List.nil_append, List.length_cons, List.length_append] at hfuel ⊢
      rw [members, skip_cons rfl]
      simp only [string_render, skip_cons (c := ':') rfl]
      rw [hm fuel _ (by omega) (endsNumber_cons _ (by decide))]
      simp only [skip_cons (c := ',') rfl, hms fuel rest (by omega), Option.map_some]

theorem exists_renderMembers (m : String × Json) (ms : List (String × Json)) :
    ∃ cs, renderMembers ((m :: ms).map fun m => (some m.1, m.2)) = '"' :: cs := by
  cases ms with
  | nil => exact ⟨_, rfl⟩
  | cons n ms => exact ⟨_, rfl⟩

theorem reads_record {ms : List (String × Json)} (hreads : ∀ m ∈ ms, Reads m.2) :
    Reads (.record ms) := by
  intro fuel rest hfuel _
  simp only [record, render, List.cons_append, List.append_assoc, List.nil_append,
    List.length_cons, List.length_append] at hfuel ⊢
  obtain ⟨fuel, rfl⟩ : ∃ k, fuel = k + 1 := ⟨fuel - 1, by omega⟩
  rw [value, skip_cons rfl]
  cases ms with
  | nil => rfl
  | cons m ms =>
    have hmembers := members_render hreads (List.cons_ne_nil m ms) fuel rest (by omega)
    obtain ⟨cs, heq⟩ := exists_renderMembers m ms
    rw [heq, List.cons_append] at hmembers ⊢
    simp only [skip_cons (c := '"') rfl]
    split
    · next h => exact absurd (List.cons.inj h).1 (by decide)
    · rw [hmembers]
      rfl

theorem reads_null : Reads .null := by
  intro fuel rest hfuel _
  simp only [render, List.length_cons] at hfuel
  obtain ⟨fuel, rfl⟩ : ∃ k, fuel = k + 1 := ⟨fuel - 1, by omega⟩
  rfl

theorem reads_bool (b : Bool) : Reads (.bool b) := by
  intro fuel rest hfuel _
  cases b
  all_goals
    simp only [render, List.length_cons] at hfuel
    obtain ⟨fuel, rfl⟩ : ∃ k, fuel = k + 1 := ⟨fuel - 1, by omega⟩
    rfl

theorem Written.reads {v : Json} (h : Written v) : Reads v := by
  induction h with
  | null => exact reads_null
  | bool b => exact reads_bool b
  | int n => exact reads_int n
  | text s => exact reads_text s
  | arr hwritten ih => exact reads_arr hwritten ih
  | record _ ih => exact reads_record ih

/-- **What is written is read back.** -/
theorem parse?_toText {v : Json} (h : Written v) : parse? v.toText = some v := by
  have hread := h.reads (2 * (render v).length + 2) [] (by omega) endsNumber_nil
  rw [List.append_nil] at hread
  rw [parse?, toText, String.toList_ofList, hread]
  rfl

end MachinePanel.Json
