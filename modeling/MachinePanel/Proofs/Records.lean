/-
The records a panel writes are read back as they were. Reading a record is reading
its fields, and the fields of a record with distinct keys are what stands under their
names (`fields_record`). So for each kind of record there is one lemma that reads it
(`ofJson?_toJson`) and one that its text says everything (`written_toJson`), and with
these every kind is `Faithful`: values and texts are read back, and no two values
share either. `records_faithful` says so of configurations, events, snapshots and handles.
-/
import MachinePanel.Config
import MachinePanel.Machine.Record
import MachinePanel.Pin.Record
import MachinePanel.Proofs.JsonText

namespace MachinePanel

namespace Json

variable {α : Type}

/-! ## Fields -/

theorem mapM_eq_map {β : Type} {f : α → Option β} {g : α → β} {l : List α}
    (h : ∀ a ∈ l, f a = some (g a)) : l.mapM f = some (l.map g) := by
  induction l with
  | nil => rfl
  | cons a l ih =>
    rw [List.mapM_cons, h a List.mem_cons_self, ih fun b hb => h b (List.mem_cons_of_mem a hb)]
    rfl

/-- The values of a key are those of the members with that key. -/
theorem valuesOf_record (key : String) (members : List (String × Json)) :
    valuesOf ⟨key, []⟩ (members.map fun m => (some m.1, m.2)) =
      (members.filter (·.1 == key)).map (·.2) := by
  induction members with
  | nil => rfl
  | cons m members ih =>
    rw [List.map_cons, valuesOf, List.filterMap_cons, List.filter_cons]
    by_cases hkey : m.1 = key
    · simp [Field.matches, hkey, ← ih, valuesOf]
    · simp [Field.matches, hkey, Ne.symm hkey, ← ih, valuesOf]

theorem filter_key_eq_nil {key : String} {members : List (String × Json)}
    (h : key ∉ members.map (·.1)) : members.filter (·.1 == key) = [] := by
  rw [List.filter_eq_nil_iff]
  intro m hm hkey
  exact h (List.mem_map.2 ⟨m, hm, beq_iff_eq.1 hkey⟩)

/-- Where no key comes twice, what stands under a key is the only value of it. -/
theorem member?_record {members : List (String × Json)} (hnodup : (members.map (·.1)).Nodup)
    (key : String) :
    member? (members.map fun m => (some m.1, m.2)) ⟨key, []⟩ = some (members.lookup key) := by
  rw [member?, valuesOf_record]
  induction members with
  | nil => rfl
  | cons m members ih =>
    rw [List.map_cons, List.nodup_cons] at hnodup
    rw [List.filter_cons, List.lookup_cons]
    by_cases hkey : m.1 = key
    · rw [filter_key_eq_nil (hkey ▸ hnodup.1)]
      simp [hkey]
    · have hne : (key == m.1) = false := beq_false_of_ne (Ne.symm hkey)
      simpa [hkey, hne] using ih hnodup.2

theorem fields_record (missing : Missing) (names : List String) {members : List (String × Json)}
    (hnodup : (members.map (·.1)).Nodup) :
    fields missing (names.map (⟨·, []⟩)) (.record members) =
      some (names.map (List.lookup · members)) := by
  have hall : (members.map fun m => (some m.1, m.2)).all (·.1.isSome) = true := by
    rw [List.all_map, List.all_eq_true]
    exact fun _ _ => rfl
  rw [record, fields, if_pos hall, List.mapM_map]
  exact mapM_eq_map fun key _ => member?_record hnodup key

/-- A tagged value has its tag and, if it is there, its content. -/
theorem tagged_record {tag content : String} {members : List (String × Json)}
    (hnodup : (members.map (·.1)).Nodup) {t : Json} (ht : members.lookup tag = some t) :
    tagged tag content (.record members) = (asName t).map (·, members.lookup content) := by
  have hfields := fields_record .defaulted [tag, content] hnodup
  simp only [List.map_cons, List.map_nil, ht] at hfields
  rw [record] at hfields ⊢
  rw [tagged, hfields]

/-! ## Values -/

theorem contains_iff {bounds : Bounds} {n : Int} :
    bounds.contains n = true ↔ bounds.low ≤ n ∧ n ≤ bounds.high := by
  rw [Bounds.contains, Bool.and_eq_true, decide_eq_true_iff, decide_eq_true_iff]

theorem asNamed_text {ofName? : String → Option α} {name : String} {a : α}
    (h : ofName? name = some a) : asNamed ofName? (.text name) = some a :=
  h

theorem asInt_int {bounds : Bounds} {n : Int} (hn : bounds.contains n = true)
    (hl : Bounds.s64.low ≤ n) (hu : n ≤ Bounds.u64.high) : asInt bounds (.int n) = some n := by
  rw [int, asInt, Number.integer?_ofInt hl hu, Option.filter_some, if_pos hn]

theorem asInt32_int (n : Int32) : asInt32 (.int n.toInt) = some n := by
  have hl := n.le_toInt
  have hu := n.toInt_lt
  have hn : Bounds.s32.contains n.toInt = true :=
    contains_iff.2 ⟨hl, Int.le_of_lt_add_one hu⟩
  rw [asInt32, asInt_int hn (by simp only [Bounds.s64]; omega) (by simp only [Bounds.u64]; omega),
    Option.map_some, Int32.ofInt_toInt]

theorem asNat_nat {bounds : Bounds} {n : Nat} (hn : bounds.contains n = true)
    (hu : (n : Int) ≤ Bounds.u64.high) : asNat bounds (.nat n) = some n := by
  rw [asNat, nat, asInt_int hn (by simp only [Bounds.s64]; omega) hu]
  rfl

theorem asUInt32_nat (n : UInt32) : asUInt32 (.nat n.toNat) = some n := by
  have hu := n.toNat_lt
  have hn : Bounds.u32.contains n.toNat = true :=
    contains_iff.2 ⟨Int.natCast_nonneg _, Int.le_of_lt_add_one (Int.ofNat_lt.2 hu)⟩
  rw [asUInt32, asNat_nat hn (by simp only [Bounds.u64]; omega), Option.map_some,
    UInt32.ofNat_toNat]

theorem asList_arr {read : Json → Option α} {write : α → Json} {l : List α}
    (h : ∀ a ∈ l, read (write a) = some a) : asList read (.arr (l.map write)) = some l := by
  rw [asList, List.mapM_map, mapM_eq_map (f := read ∘ write) (g := id) h, List.map_id]

theorem optional_optionalText (s : Option String) :
    optional asString (some (optionalText s)) = some s := by
  cases s <;> rfl

theorem written_optionalText (s : Option String) : (optionalText s).Written := by
  cases s with
  | none => exact .null
  | some s => exact .text s

theorem written_nat (n : Nat) : (nat n).Written :=
  .int n

/-- A record is written if its values are. -/
theorem written_arr_map {write : α → Json} (h : ∀ a, (write a).Written) (l : List α) :
    (arr (l.map write)).Written := by
  refine .arr fun x hx => ?_
  obtain ⟨a, -, rfl⟩ := List.mem_map.1 hx
  exact h a

end Json

/-- Records of a kind that are read back as they were written, be it as values or as
texts, so that none stands for two of the kind. -/
structure Faithful {α : Type} (write : α → Json) (read : Json → Option α)
    (valid : α → Prop) : Prop where
  value : ∀ a, valid a → read (write a) = some a
  text : ∀ a, valid a → (Json.parse? (write a).toText).bind read = some a
  value_injective : ∀ a b, valid a → valid b → write a = write b → a = b
  text_injective : ∀ a b, valid a → valid b → (write a).toText = (write b).toText → a = b

theorem faithful_of_read {α : Type} {write : α → Json} {read : Json → Option α} {valid : α → Prop}
    (hread : ∀ a, valid a → read (write a) = some a) (hwritten : ∀ a, (write a).Written) :
    Faithful write read valid := by
  have htext : ∀ a, valid a → (Json.parse? (write a).toText).bind read = some a := fun a ha => by
    rw [Json.parse?_toText (hwritten a), Option.bind_some, hread a ha]
  refine ⟨hread, htext, fun a b ha hb heq => ?_, fun a b ha hb heq => ?_⟩
  · have hsame := hread a ha
    rw [heq, hread b hb] at hsame
    exact (Option.some_inj.1 hsame).symm
  · have hsame := htext a ha
    rw [heq, htext b hb] at hsame
    exact (Option.some_inj.1 hsame).symm

/-! ## Configurations -/

theorem HomingPolicy.ofName?_name (p : HomingPolicy) : ofName? p.name = some p := by
  cases p <;> rfl

namespace WatchConfig

theorem written_toJson (c : WatchConfig) : c.toJson.Written := by
  refine .record fun m hm => ?_
  simp only [List.mem_cons, List.not_mem_nil, or_false] at hm
  rcases hm with rfl | rfl | rfl
  · exact Json.written_nat _
  · exact .text _
  · exact .bool _

theorem fields_toJson (c : WatchConfig) :
    Json.fields .defaulted recordFields c.toJson =
      some [some (.nat c.tickIntervalMs.toNat), some (.text c.homingPolicy.name),
        some (.bool c.watchPins)] := by
  refine Json.fields_record .defaulted ["tick_interval_ms", "homing_policy", "watch_pins"] ?_
  simp

theorem ofJson?_toJson (c : WatchConfig) : ofJson? c.toJson = some c := by
  have hu : (c.tickIntervalMs.toNat : Int) ≤ Bounds.u64.high :=
    Int.le_of_lt_add_one (Int.ofNat_lt.2 c.tickIntervalMs.toNat_lt)
  have hinterval := Json.asNat_nat (Json.contains_iff.2 ⟨Int.natCast_nonneg _, hu⟩) hu
  have hpolicy := Json.asNamed_text (HomingPolicy.ofName?_name c.homingPolicy)
  rw [ofJson?, fields_toJson]
  simp only [Json.defaulting, hinterval, hpolicy, Json.asBool, Option.bind_eq_bind,
    Option.bind_some, UInt64.ofNat_toNat]

theorem ofText?_toText (c : WatchConfig) : ofText? c.toText = some c := by
  rw [ofText?, toText, Json.parse?_toText c.written_toJson, Option.bind_some, ofJson?_toJson]

end WatchConfig

/-! ## Events -/

namespace StatusEvent

/-- The joints an event names. -/
def joints : StatusEvent → List Nat
  | homed joints | notAllHomed joints => joints
  | _ => []

/-- The joints of an event are indices of 64 bits. -/
def Indexed (e : StatusEvent) : Prop :=
  ∀ i ∈ e.joints, (i : Int) ≤ Bounds.u64.high

/-- **The tag of an event is its name.** -/
theorem tag_eq_name (e : StatusEvent) : e.tag = e.name := by
  cases e
  all_goals
    simp only [tag, form, name]
    decide

theorem toJson_eq (e : StatusEvent) :
    e.toJson = .record (("event", .text e.name) :: (e.payload?.map ("payload", ·)).toList) := by
  rw [toJson, tag_eq_name]

theorem written_payload {e : StatusEvent} {content : Json} (h : e.payload? = some content) :
    content.Written := by
  cases e with
  | homed joints | notAllHomed joints =>
    cases h
    exact Json.written_arr_map Json.written_nat joints
  | fileLoaded path =>
    cases h
    exact Json.written_optionalText path
  | lineChanged n | toolChanged n =>
    cases h
    exact .int n.toInt
  | _ => cases h

theorem written_toJson (e : StatusEvent) : e.toJson.Written := by
  refine .record fun m hm => ?_
  rcases List.mem_cons.1 hm with rfl | hm
  · exact .text _
  · obtain ⟨content, hcontent, rfl⟩ := Option.map_eq_some_iff.1 (Option.mem_toList.1 hm)
    exact written_payload hcontent

theorem tagged_toJson (e : StatusEvent) :
    Json.tagged "event" "payload" e.toJson = some (e.tag, e.payload?) := by
  rw [toJson, Json.tagged_record (t := .text e.tag)]
  · cases e.payload? <;> rfl
  · cases e.payload? <;> simp
  · rfl

theorem ofParts?_payload {e : StatusEvent} (h : e.Indexed) :
    ofParts? e.tag e.payload? = some e := by
  have hplain : ∀ e ∈ plain, ofParts? e.tag e.payload? = some e := by decide
  have hjoints : Json.asList (Json.asNat .u64) (.arr (e.joints.map .nat)) = some e.joints :=
    Json.asList_arr fun i hi =>
      Json.asNat_nat (Json.contains_iff.2 ⟨Int.natCast_nonneg i, h i hi⟩) (h i hi)
  by_cases hmem : e ∈ plain
  · exact hplain e hmem
  · rw [tag_eq_name]
    cases e with
    | homed joints => exact congrArg (Option.map homed) hjoints
    | notAllHomed joints => exact congrArg (Option.map notAllHomed) hjoints
    | fileLoaded path => exact congrArg (Option.map fileLoaded) (Json.optional_optionalText path)
    | lineChanged n => exact congrArg (Option.map lineChanged) (Json.asInt32_int n)
    | toolChanged n => exact congrArg (Option.map toolChanged) (Json.asInt32_int n)
    | _ => exact absurd (by decide) hmem

theorem ofJson?_toJson {e : StatusEvent} (h : e.Indexed) : ofJson? e.toJson = some e := by
  rw [ofJson?, tagged_toJson]
  exact ofParts?_payload h

end StatusEvent

/-! ## Snapshots -/

theorem RunState.ofName?_name (s : RunState) : ofName? s.name = some s := by
  cases s <;> rfl

theorem TaskMode.ofName?_name (m : TaskMode) : ofName? m.name = some m := by
  cases m <;> rfl

theorem InterpState.ofName?_name (s : InterpState) : ofName? s.name = some s := by
  cases s <;> rfl

theorem AxisMask.ofJson?_bits (mask : AxisMask) : ofJson? (.nat mask.bits.toNat) = some mask := by
  rw [ofJson?, Json.asUInt32_nat]
  rfl

namespace Snapshot

theorem written_toJson (s : Snapshot) : s.toJson.Written := by
  refine .record fun m hm => ?_
  simp only [List.mem_cons, List.not_mem_nil, or_false] at hm
  rcases hm with rfl | rfl | rfl | rfl | rfl | rfl | rfl | rfl
  · exact .text _
  · exact .text _
  · exact .text _
  · exact Json.written_arr_map .bool s.homed
  · exact Json.written_nat _
  · exact Json.written_optionalText s.loadedFile
  · exact .int _
  · exact .int _

theorem fields_toJson (s : Snapshot) :
    Json.fields .strict recordFields s.toJson =
      some [some (.text s.runState.name), some (.text s.mode.name),
        some (.text s.interpState.name), some (.arr (s.homed.map .bool)),
        some (.nat s.axisMask.bits.toNat), some (.optionalText s.loadedFile),
        some (.int s.currentLine.toInt), some (.int s.activeTool.toInt)] := by
  refine Json.fields_record .strict ["run_state", "mode", "interp_state", "homed", "axis_mask",
    "loaded_file", "current_line", "active_tool"] ?_
  simp

theorem ofJson?_toJson (s : Snapshot) : ofJson? s.toJson = some s := by
  have hrun := Json.asNamed_text (RunState.ofName?_name s.runState)
  have hmode := Json.asNamed_text (TaskMode.ofName?_name s.mode)
  have hinterp := Json.asNamed_text (InterpState.ofName?_name s.interpState)
  have hhomed : Json.asList Json.asBool (.arr (s.homed.map .bool)) = some s.homed :=
    Json.asList_arr fun _ _ => rfl
  rw [ofJson?, fields_toJson]
  simp only [Json.required, Option.bind_eq_bind, Option.bind_some, hrun, hmode, hinterp, hhomed,
    AxisMask.ofJson?_bits, Json.optional_optionalText, Json.asInt32_int]

end Snapshot

/-! ## Handles -/

theorem Direction.ofName?_name (d : Direction) : ofName? d.name = some d := by
  cases d <;> rfl

theorem ScalarType.ofName?_name (t : ScalarType) : ofName? t.name = some t := by
  cases t <;> rfl

namespace Handle

theorem written_toJson (h : Handle) : h.toJson.Written := by
  refine .record fun m hm => ?_
  simp only [List.mem_cons, List.not_mem_nil, or_false] at hm
  rcases hm with rfl | rfl | rfl <;> exact .text _

theorem fields_toJson (h : Handle) :
    Json.fields .strict [⟨"name", []⟩, ⟨"direction", []⟩, ⟨"pin_type", []⟩] h.toJson =
      some [some (.text h.name), some (.text h.direction.name), some (.text h.type.name)] := by
  refine Json.fields_record .strict ["name", "direction", "pin_type"] ?_
  simp

theorem ofJson?_toJson (h : Handle) : ofJson? h.toJson = some h := by
  have hdirection := Json.asNamed_text (Direction.ofName?_name h.direction)
  have htype := Json.asNamed_text (ScalarType.ofName?_name h.type)
  have hname : Json.asString (.text h.name) = some h.name := rfl
  rw [ofJson?, fields_toJson]
  simp only [Json.required, Option.bind_eq_bind, Option.bind_some, hname, hdirection, htype]

end Handle

/-! ## All records -/

/-- **Records are read back as they were written.** This holds of every configuration,
snapshot and handle, and of every event whose joints are indices of 64 bits. The tag of
an event, which its record begins with, is the name it is emitted under. -/
theorem records_faithful :
    Faithful WatchConfig.toJson WatchConfig.ofJson? (fun _ => True) ∧
    (∀ c : WatchConfig, WatchConfig.ofText? c.toText = some c) ∧
    Faithful StatusEvent.toJson StatusEvent.ofJson? StatusEvent.Indexed ∧
    (∀ e : StatusEvent, e.tag = e.name ∧
      e.toJson = .record (("event", .text e.name) :: (e.payload?.map ("payload", ·)).toList)) ∧
    Faithful Snapshot.toJson Snapshot.ofJson? (fun _ => True) ∧
    Faithful Handle.toJson Handle.ofJson? (fun _ => True) := by
  refine ⟨?_, WatchConfig.ofText?_toText, ?_, fun e => ⟨e.tag_eq_name, e.toJson_eq⟩, ?_, ?_⟩
  · exact faithful_of_read (fun c _ => c.ofJson?_toJson) WatchConfig.written_toJson
  · exact faithful_of_read (fun _ he => StatusEvent.ofJson?_toJson he) StatusEvent.written_toJson
  · exact faithful_of_read (fun s _ => s.ofJson?_toJson) Snapshot.written_toJson
  · exact faithful_of_read (fun h _ => h.ofJson?_toJson) Handle.written_toJson

/-- The highest index there is, and a path with characters that are escaped. -/
theorem records_faithful_escapes :
    (Json.parse? (StatusEvent.homed [0, 18446744073709551615]).toJson.toText).bind
        StatusEvent.ofJson? = some (.homed [0, 18446744073709551615]) ∧
      (Json.parse? (StatusEvent.fileLoaded (some "a\"\\\n\x01é")).toJson.toText).bind
        StatusEvent.ofJson? = some (.fileLoaded (some "a\"\\\n\x01é")) := by
  obtain ⟨-, -, hevents, -⟩ := records_faithful
  exact ⟨hevents.text _ (by simp [StatusEvent.Indexed, StatusEvent.joints, Bounds.u64]),
    hevents.text _ (by simp [StatusEvent.Indexed, StatusEvent.joints])⟩

end MachinePanel
