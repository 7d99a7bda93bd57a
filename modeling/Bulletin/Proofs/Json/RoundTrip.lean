import Bulletin.Json.Record
import Bulletin.Proofs.Json.Reading

/-!
# RoundTrip — records as JSON text

Every kind of record has a form that is written and a reader that takes more forms than that one. This
file reads what is written:

* `Value.parts?_record` — the parts of a record are found under their keys, in order;
* `ReadsBack` — a kind whose form is plain and is read as what is kept of it; all is kept of most kinds
  (`Component.readsBack`, `Name.readsBack`, and so on);
* `Duration.wholeMillis` — what is kept of a duration: its whole milliseconds, as far as a number goes;
* `SessionConfig.readsBack`, `SessionConfig.ofText_compact` — a configuration comes back with its
  durations cut, and is refused when nothing of its lifetime is left;
* `records_read_back` — all of it together.
-/

namespace Bulletin

namespace Json

/-! ## Lists -/

theorem mapM_map_eq_some {α β γ : Type} {write : α → β} {read : β → Option γ} {kept : α → γ}
    {xs : List α} (h : ∀ x ∈ xs, read (write x) = some (kept x)) :
    (xs.map write).mapM read = some (xs.map kept) := by
  induction xs with
  | nil => rfl
  | cons x xs ih =>
      obtain ⟨hfirst, hrest⟩ := List.forall_mem_cons.mp h
      rw [List.map_cons, List.mapM_cons, hfirst, ih hrest]
      rfl

/-- What is read back one by one is read back as a list. -/
theorem mapM_map_of_back {α β : Type} {write : α → β} {read : β → Option α}
    (h : ∀ x, read (write x) = some x) (xs : List α) : (xs.map write).mapM read = some xs := by
  have hread : (xs.map write).mapM read = some (xs.map fun x => x) :=
    mapM_map_eq_some fun x _ => h x
  rw [hread, List.map_id']

theorem textOf?_glyphsOf (text : List Char) : textOf? (glyphsOf text) = some text := by
  have hback (c : Char) : Glyph.char? (.scalar c) = some c := rfl
  exact mapM_map_of_back hback text

/-! ## Records -/

namespace Value

variable {fields : List (String × Value)}

theorem plain_record (h : ∀ field ∈ fields, field.2.Plain) : (record fields).Plain := by
  refine .object ?_ ?_
  · intro written hmem
    obtain ⟨field, -, rfl⟩ := List.mem_map.mp hmem
    exact ⟨field.1.toList, rfl⟩
  · intro written hmem
    obtain ⟨field, hfield, rfl⟩ := List.mem_map.mp hmem
    exact h field hfield

theorem plain_array_map {α : Type} {write : α → Value} (h : ∀ x, (write x).Plain) (xs : List α) :
    (array (xs.map write)).Plain := by
  refine .array fun item hmem => ?_
  obtain ⟨x, -, rfl⟩ := List.mem_map.mp hmem
  exact h x

theorem plain_bytes (b : Bytes) : (bytes b).Plain := by
  have hbyte (byte : UInt8) : (natural byte.toNat).Plain := .natural byte.toNat
  exact plain_array_map hbyte b

theorem plain_text (s : String) : (text s).Plain :=
  .text s.toList

theorem natBelow?_natural {n bound : Nat} (h : n < bound) : (natural n).natBelow? bound = some n :=
  if_pos h

theorem byte?_natural (b : UInt8) : (natural b.toNat).byte? = some b := by
  rw [byte?, natBelow?_natural b.toNat_lt, Option.map_some, UInt8.ofNat_toNat]

theorem bytes?_bytes (b : Bytes) : (bytes b).bytes? = some b :=
  mapM_map_of_back byte?_natural b

theorem text?_text (s : String) : (text s).text? = some s := by
  rw [text, text?, textOf?_glyphsOf, Option.map_some, String.ofList_toList]

/-- Under a key that comes once there is its value. -/
theorem valuesUnder_of_mem (hkeys : (fields.map Prod.fst).Nodup) {field : String × Value}
    (hmem : field ∈ fields) : valuesUnder field.1 fields = [field.2] := by
  induction fields with
  | nil => cases hmem
  | cons first rest ih =>
      obtain ⟨hfirst, hrest⟩ := List.nodup_cons.mp hkeys
      unfold valuesUnder at ih ⊢
      rcases List.mem_cons.mp hmem with rfl | hlater
      · -- This is the field, and its key does not come again.
        have hnone : rest.filter (fun other => other.1 == field.1) = [] := by
          refine List.filter_eq_nil_iff.mpr fun other hother hsame => hfirst ?_
          rw [← eq_of_beq hsame]
          exact List.mem_map_of_mem hother
        rw [List.filter_cons_of_pos (by simp), hnone]
        rfl
      · have hother : first.1 ≠ field.1 := by
          intro hsame
          rw [hsame] at hfirst
          exact hfirst (List.mem_map_of_mem hlater)
        rw [List.filter_cons_of_neg (by simpa using hother)]
        exact ih hrest hlater

/-- The parts of a record whose keys are different are found in their order. -/
theorem parts?_record {keys : List String} (hkeys : fields.map Prod.fst = keys)
    (hnodup : keys.Nodup) :
    (record fields).parts? keys = some (fields.map fun field => some field.2) := by
  subst hkeys
  have hread : (fields.map fun field => (glyphsOf field.1.toList, field.2)).mapM field? =
      some fields := by
    refine mapM_map_of_back (fun field => ?_) fields
    rw [field?, textOf?_glyphsOf, Option.map_some, String.ofList_toList]
  -- No key is unknown, so nothing is skipped.
  have hknown : (fields.all fun field =>
      (fields.map Prod.fst).contains field.1 || field.2.isClean) = true := by
    refine List.all_eq_true.mpr fun field hmem => ?_
    rw [List.contains_iff_mem.mpr (List.mem_map_of_mem hmem), Bool.true_or]
  have hvalues : (fields.map Prod.fst).mapM (valueUnder? fields) =
      some (fields.map fun field => some field.2) := by
    refine mapM_map_eq_some fun field hmem => ?_
    rw [valueUnder?, valuesUnder_of_mem hnodup hmem]
  simp only [record, parts?, hread, Option.bind_eq_bind, Option.bind_some, hknown, if_true, hvalues]

end Value

/-! ## Kinds -/

def fromText? {α : Type} (read : Value → Option α) (text : String) : Option α :=
  (Value.parse? text.toList).bind read

/-- A kind is written in a plain form, and that form is read as what is kept of it. -/
structure ReadsBack {α : Type} (write : α → Value) (read : Value → Option α) (kept : α → α) :
    Prop where
  plain : ∀ x, (write x).Plain
  back : ∀ x, read (write x) = some (kept x)

theorem ReadsBack.fromText {α : Type} {write : α → Value} {read : Value → Option α} {kept : α → α}
    (h : ReadsBack write read kept) (x : α) : fromText? read (write x).compact = some (kept x) := by
  rw [fromText?, Value.parse?_compact (h.plain x), Option.bind_some, h.back]

end Json

open Json

namespace Component

theorem readsBack : ReadsBack toJson ofJson? fun x => x where
  plain c := by
    refine Value.plain_record ?_
    simp [Value.plain_bytes, Value.Plain.natural]
  back c := by
    have hparts : c.toJson.parts? ["tlv_type", "value"] =
        some [some (.natural c.type.toNat), some (.bytes c.value)] :=
      Value.parts?_record rfl (by decide)
    have htype : (Value.natural c.type.toNat).natBelow? UInt16.size = some c.type.toNat :=
      Value.natBelow?_natural c.type.toNat_lt
    simp [ofJson?, hparts, htype, Value.bytes?_bytes]

end Component

namespace Name

theorem readsBack : ReadsBack toJson ofJson? fun x => x where
  plain name := Value.plain_array_map Component.readsBack.plain name.components
  back name := by
    have hitems : name.toJson.items? = some (name.components.map Component.toJson) := rfl
    have hcomponents := mapM_map_of_back Component.readsBack.back name.components
    simp only [ofJson?, hitems, Option.bind_eq_bind, Option.bind_some, hcomponents, Option.pure_def]

end Name

namespace Timestamp

theorem readsBack : ReadsBack toJson ofJson? fun x => x where
  plain t := .natural t.toNat
  back t := by
    have hmicros : t.toJson.natBelow? UInt64.size = some t.toNat :=
      Value.natBelow?_natural t.micros.toNat_lt
    simp [ofJson?, hmicros, ofNat_toNat]

end Timestamp

namespace Publication

theorem readsBack : ReadsBack toJson ofJson? fun x => x where
  plain p := by
    refine Value.plain_record ?_
    simp [Value.plain_bytes, Name.readsBack.plain]
  back p := by
    have hparts : p.toJson.parts? ["name", "payload"] =
        some [some p.name.toJson, some (.bytes p.payload)] :=
      Value.parts?_record rfl (by decide)
    simp [ofJson?, hparts, Name.readsBack.back, Value.bytes?_bytes]

end Publication

namespace PublicationId

theorem readsBack : ReadsBack toJson ofJson? fun x => x where
  plain i := Value.plain_bytes i.bytes
  back i := by
    have hitems : i.toJson.items? = some (i.bytes.map fun byte => .natural byte.toNat) := rfl
    have hbytes := mapM_map_of_back Value.byte?_natural i.bytes
    simp only [ofJson?, hitems, Option.bind_eq_bind, Option.bind_some, hbytes, ofBytes?,
      dif_pos i.length_bytes]

end PublicationId

namespace Summary

theorem mem_ofList {ids : List PublicationId} {i : PublicationId} :
    i ∈ (ofList ids).ids ↔ i ∈ ids := by
  have hfold (s : Summary) : i ∈ (ids.foldl insert s).ids ↔ i ∈ s.ids ∨ i ∈ ids := by
    induction ids generalizing s with
    | nil => simp
    | cons first rest ih =>
        rw [List.foldl_cons, ih, mem_insert, List.mem_cons]
        tauto
  rw [ofList, hfold]
  simp [empty]

/-- The ids are written in their order, and put in order again when they are read. -/
theorem ofList_ids (s : Summary) : ofList s.ids = s :=
  eq_of_mem_iff fun _ => mem_ofList

theorem readsBack : ReadsBack toJson ofJson? fun x => x where
  plain s := by
    have hids := Value.plain_array_map PublicationId.readsBack.plain s.ids
    refine Value.plain_record ?_
    simp [hids]
  back s := by
    have hparts : s.toJson.parts? ["ids"] = some [some (.array (s.ids.map PublicationId.toJson))] :=
      Value.parts?_record rfl (by decide)
    have hids := mapM_map_of_back PublicationId.readsBack.back s.ids
    simp [ofJson?, hparts, Value.items?, hids, ofList_ids]

end Summary

/-! ## Configurations -/

namespace Duration

/-- The duration cut to whole milliseconds, and to as many as a 64-bit number counts. -/
def wholeMillis (d : Duration) : Duration where
  nanos := 10 ^ 6 * min d.millis (2 ^ 64 - 1)
  inRange := by
    rw [UInt64.size]
    omega

attribute [ext] Duration

theorem readsBack : ReadsBack toJson ofJson? wholeMillis where
  plain d := .natural _
  back d := by
    have hbound : min d.millis (UInt64.size - 1) < UInt64.size :=
      Nat.lt_of_le_of_lt (Nat.min_le_right _ _) (by decide)
    have hread : d.toJson.natBelow? UInt64.size = some (min d.millis (UInt64.size - 1)) :=
      Value.natBelow?_natural hbound
    -- So many milliseconds are far from the longest duration, at which `ofMillis` would stop.
    have hkept : ofMillis (min d.millis (UInt64.size - 1)) = d.wholeMillis := by
      ext
      simp only [ofMillis, ofNanos, millis, wholeMillis, max, UInt64.size]
      omega
    simp only [ofJson?, hread, hkept, Option.bind_eq_bind, Option.bind_some, Option.pure_def]

theorem wholeMillis_wholeMillis (d : Duration) : d.wholeMillis.wholeMillis = d.wholeMillis := by
  ext
  simp only [wholeMillis, millis]
  omega

/-- A millisecond that is there is kept. -/
theorem nanos_wholeMillis_eq_zero_iff {d : Duration} :
    d.wholeMillis.nanos = 0 ↔ d.nanos < 10 ^ 6 := by
  simp only [wholeMillis, millis]
  omega

end Duration

namespace Window

def wholeMillis (w : Window) : Window :=
  ⟨w.lifetime.wholeMillis, w.skew.wholeMillis⟩

theorem wholeMillis_wholeMillis (w : Window) : w.wholeMillis.wholeMillis = w.wholeMillis := by
  simp only [wholeMillis, Duration.wholeMillis_wholeMillis]

theorem readsBack : ReadsBack toJson ofJson? wholeMillis where
  plain w := by
    refine Value.plain_record ?_
    simp [Duration.readsBack.plain]
  back w := by
    have hparts : w.toJson.parts? ["max_pub_lifetime_ms", "max_clock_skew_ms"] =
        some [some w.lifetime.toJson, some w.skew.toJson] :=
      Value.parts?_record rfl (by decide)
    simp [ofJson?, hparts, partOr, Duration.readsBack.back, wholeMillis]

end Window

namespace SessionConfig

def wholeMillis (config : SessionConfig) : SessionConfig :=
  { config with window := config.window.wholeMillis }

theorem labelOfJson?_labelToJson (label : Option String) :
    labelOfJson? (labelToJson label) = some label := by
  cases label with
  | none => rfl
  | some label => exact congrArg (Option.map some) (Value.text?_text label)

theorem readsBack : ReadsBack toJson ofJson? wholeMillis where
  plain config := by
    have hlabel : (labelToJson config.label).Plain := by
      cases config.label with
      | none => exact .null
      | some label => exact Value.plain_text label
    refine Value.plain_record ?_
    simp [Window.readsBack.plain, Value.Plain.natural, hlabel]
  back config := by
    have hparts : config.toJson.parts? ["policy", "sync_data_pub_size", "describe"] =
        some [some config.window.toJson, some (.natural config.budget.toNat),
          some (labelToJson config.label)] :=
      Value.parts?_record rfl (by decide)
    have hbudget : budgetOfJson? (.natural config.budget.toNat) = some config.budget := by
      rw [budgetOfJson?, Value.natBelow?_natural config.budget.toNat_lt]
      simp
    simp [ofJson?, hparts, partOr, Window.readsBack.back, hbudget, labelOfJson?_labelToJson,
      wholeMillis]

theorem wholeMillis_wholeMillis (config : SessionConfig) :
    config.wholeMillis.wholeMillis = config.wholeMillis := by
  simp only [wholeMillis, Window.wholeMillis_wholeMillis]

theorem fault?_eq_none_iff {config : SessionConfig} :
    config.fault? = none ↔ config.window.lifetime.nanos ≠ 0 ∧ config.budget ≠ 0 := by
  unfold fault?
  split_ifs with hlifetime hbudget
  · simp [hlifetime]
  · simp [hbudget]
  · simp [hlifetime, hbudget]

theorem validate_eq_ok_iff {config read : SessionConfig} :
    config.validate = .ok read ↔ read = config ∧ config.fault? = none := by
  unfold validate
  cases config.fault? with
  | some fault => simp
  | none => simp [eq_comm]

theorem validate_eq_invalidConfig_iff {config : SessionConfig} :
    (∃ fault, config.validate = .error (.invalidConfig fault)) ↔ config.fault? ≠ none := by
  unfold validate
  cases config.fault? with
  | some fault => simp
  | none => simp

/-- A lifetime below one millisecond is cut to nothing, and the budget is kept. -/
theorem fault?_wholeMillis_eq_none_iff {config : SessionConfig} :
    config.wholeMillis.fault? = none ↔ 10 ^ 6 ≤ config.window.lifetime.nanos ∧ config.budget ≠ 0 := by
  have hlifetime : config.wholeMillis.window.lifetime.nanos ≠ 0 ↔
      10 ^ 6 ≤ config.window.lifetime.nanos := by
    rw [← Nat.not_lt]
    exact not_congr Duration.nanos_wholeMillis_eq_zero_iff
  rw [fault?_eq_none_iff, hlifetime]
  exact Iff.rfl

/-- What is read of a configuration that was written is judged by what was kept of it. -/
theorem ofText_compact (config : SessionConfig) :
    ofText config.toJson.compact = config.wholeMillis.validate := by
  have hread := readsBack.fromText config
  rw [fromText?] at hread
  rw [ofText, hread]

theorem ofText_compact_eq_ok_iff {config read : SessionConfig} :
    ofText config.toJson.compact = .ok read ↔
      read = config.wholeMillis ∧ 10 ^ 6 ≤ config.window.lifetime.nanos ∧ config.budget ≠ 0 := by
  rw [ofText_compact, validate_eq_ok_iff, fault?_wholeMillis_eq_none_iff]

theorem ofText_compact_eq_invalidConfig_iff {config : SessionConfig} :
    (∃ fault, ofText config.toJson.compact = .error (.invalidConfig fault)) ↔
      ¬ (10 ^ 6 ≤ config.window.lifetime.nanos ∧ config.budget ≠ 0) := by
  rw [ofText_compact, validate_eq_invalidConfig_iff, ne_eq, fault?_wholeMillis_eq_none_iff]

/-- Of the usable configurations, those that last less than a millisecond are the ones that are lost. -/
theorem ofText_compact_ne_ok_iff {config : SessionConfig} (h : config.validate = .ok config) :
    (∀ read, ofText config.toJson.compact ≠ .ok read) ↔ config.window.lifetime.nanos < 10 ^ 6 := by
  have hbudget : config.budget ≠ 0 := (fault?_eq_none_iff.mp (validate_eq_ok_iff.mp h).2).2
  simp only [ne_eq, ofText_compact_eq_ok_iff]
  constructor
  · intro hlost
    by_contra hlong
    exact hlost config.wholeMillis ⟨rfl, by omega, hbudget⟩
  · rintro hshort read ⟨-, hlong, -⟩
    omega

end SessionConfig

/-! ## All kinds -/

namespace Json

/-- Components, names, timestamps, publications, ids and summaries are read back from their compact
text as they were. A configuration is read back with its durations cut to whole milliseconds, and from
then on as it is. As a usable configuration it is read exactly if its lifetime is a millisecond or more
and its budget is not zero, and is refused as not usable otherwise; so the only usable configurations
that cannot be read back are those with a lifetime below a millisecond. -/
theorem records_read_back :
    (∀ c : Component, fromText? Component.ofJson? c.toJson.compact = some c) ∧
      (∀ name : Name, fromText? Name.ofJson? name.toJson.compact = some name) ∧
      (∀ t : Timestamp, fromText? Timestamp.ofJson? t.toJson.compact = some t) ∧
      (∀ p : Publication, fromText? Publication.ofJson? p.toJson.compact = some p) ∧
      (∀ i : PublicationId, fromText? PublicationId.ofJson? i.toJson.compact = some i) ∧
      (∀ s : Summary, fromText? Summary.ofJson? s.toJson.compact = some s) ∧
      ∀ config : SessionConfig,
        fromText? SessionConfig.ofJson? config.toJson.compact = some config.wholeMillis ∧
          fromText? SessionConfig.ofJson? config.wholeMillis.toJson.compact =
            some config.wholeMillis ∧
          (∀ read, SessionConfig.ofText config.toJson.compact = .ok read ↔
            read = config.wholeMillis ∧
              10 ^ 6 ≤ config.window.lifetime.nanos ∧ config.budget ≠ 0) ∧
          ((∃ fault, SessionConfig.ofText config.toJson.compact = .error (.invalidConfig fault)) ↔
            ¬ (10 ^ 6 ≤ config.window.lifetime.nanos ∧ config.budget ≠ 0)) ∧
          (config.validate = .ok config →
            ((∀ read, SessionConfig.ofText config.toJson.compact ≠ .ok read) ↔
              config.window.lifetime.nanos < 10 ^ 6)) := by
  refine ⟨Component.readsBack.fromText, Name.readsBack.fromText, Timestamp.readsBack.fromText,
    Publication.readsBack.fromText, PublicationId.readsBack.fromText, Summary.readsBack.fromText, ?_⟩
  intro config
  refine ⟨SessionConfig.readsBack.fromText config, ?_, fun read =>
    SessionConfig.ofText_compact_eq_ok_iff, SessionConfig.ofText_compact_eq_invalidConfig_iff,
    SessionConfig.ofText_compact_ne_ok_iff⟩
  rw [SessionConfig.readsBack.fromText config.wholeMillis, SessionConfig.wholeMillis_wholeMillis]

/-- A component of type 0; and a usable configuration with a lifetime just below a millisecond, the
longest skew, and a label of characters that are escaped by a letter, by their code, or not at all. -/
theorem records_read_back_fleeting :
    let c : Component := ⟨0, [0, 255]⟩
    let config : SessionConfig :=
      { window := ⟨.ofNanos 999999, .max⟩, budget := 1, label := some "\"\\\n\x01\x7fé😀" }
    let text :=
      "\x7b\"policy\":\x7b\"max_pub_lifetime_ms\":0,\"max_clock_skew_ms\":18446744073709551615\x7d," ++
        "\"sync_data_pub_size\":1,\"describe\":\"\\\"\\\\\\n\\u0001\x7fé😀\"\x7d"
    fromText? Component.ofJson? c.toJson.compact = some c ∧
      config.validate = .ok config ∧ config.toJson.compact = text ∧
      fromText? SessionConfig.ofJson? text = some config.wholeMillis ∧
      config.wholeMillis.window = ⟨.ofMillis 0, .ofMillis 18446744073709551615⟩ ∧
      config.wholeMillis.label = config.label ∧
      (∃ fault, SessionConfig.ofText text = .error (.invalidConfig fault)) ∧
      ∀ read, SessionConfig.ofText text ≠ .ok read := by
  intro c config text
  rcases records_read_back with ⟨hcomponents, -, -, -, -, -, hconfigs⟩
  rcases hconfigs config with ⟨hread, -, -, hrefused, hlost⟩
  have htext : config.toJson.compact = text := by decide +kernel
  have hvalid : config.validate = .ok config := rfl
  have hshort : config.window.lifetime.nanos < 10 ^ 6 := by decide
  rw [htext] at hread hrefused hlost
  exact ⟨hcomponents c, hvalid, htext, hread, by decide +kernel, rfl,
    hrefused.mpr fun h => Nat.not_lt.mpr h.1 hshort, (hlost hvalid).mpr hshort⟩

end Json

end Bulletin
