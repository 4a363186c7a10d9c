import ShutdownLint.Proofs.Json.ReadBack
import ShutdownLint.Proofs.Timestamp.ReadBack
import ShutdownLint.Report.Format
/-!
Reports are read back from their own JSON.

Each record is legible, and its fields are read from the members under their names. So is a report
that was read from a text of any other shape, since reading leaves nothing of this shape behind.
-/

set_option autoImplicit false

namespace ShutdownLint

namespace Json

theorem legible_ofUInt32 (n : UInt32) : (ofUInt32 n).Legible :=
  .number n.toNat

theorem asUInt32?_ofUInt32 (n : UInt32) : (ofUInt32 n).asUInt32? = some n := by
  have hdigits : (Decimal.digits n.toNat).all Decimal.isDigit = true :=
    List.all_eq_true.mpr fun _ hc ↦ Decimal.isDigit_of_mem_digits hc
  simp only [ofUInt32, asUInt32?, Decimal.text, String.toList_ofList, Decimal.value_digits]
  rw [if_pos ⟨hdigits, n.toNat_lt⟩, UInt32.ofNat_toNat]

end Json

open Json (Legible legible_ofUInt32 asUInt32?_ofUInt32)

/-! ### Findings -/

namespace Finding

theorem legible_toJson (f : Finding) : f.toJson.Legible := by
  obtain ⟨rule, severity, message, file, line⟩ := f
  refine .object ?_
  cases line with
  | none => simp [Legible.string]
  | some n => simp [Legible.string, legible_ofUInt32]

theorem readLine?_map_ofUInt32 (line : Option UInt32) :
    readLine? (line.map Json.ofUInt32) = some line := by
  cases line with
  | none => rfl
  | some n => exact congrArg (Option.map some) (asUInt32?_ofUInt32 n)

theorem ofJson?_toJson (f : Finding) : ofJson? f.toJson = some f := by
  have hfields : f.toJson.fields? ["rule", "severity", "message", "file", "line"] =
      some [some (.string f.rule), some (.string f.severity.name), some (.string f.message),
        some (.string f.file), f.line.map .ofUInt32] := by
    obtain ⟨rule, severity, message, file, line⟩ := f
    cases line <;> rfl
  simp [ofJson?, hfields, Json.asString?, Json.asChoice?, Severity.ofName?_name,
    readLine?_map_ofUInt32]

theorem listOfJson?_listToJson (fs : List Finding) : listOfJson? (listToJson fs) = some fs := by
  show (fs.map toJson).mapM ofJson? = some fs
  induction fs with
  | nil => rfl
  | cons f fs ih => simp [ofJson?_toJson, ih]

end Finding

/-! ### Reports -/

theorem Tool.legible_toJson (t : Tool) : t.toJson.Legible :=
  .object (by simp [Legible.string])

theorem Tool.ofJson?_toJson (t : Tool) : Tool.ofJson? t.toJson = some t := by
  have hfields : t.toJson.fields? ["name", "version"] =
      some [some (.string t.name), some (.string t.version)] := rfl
  simp [ofJson?, hfields, Json.asString?]

theorem Counts.legible_toJson (c : Counts) : c.toJson.Legible :=
  .object (by simp [legible_ofUInt32])

theorem Counts.ofJson?_toJson (c : Counts) : Counts.ofJson? c.toJson = some c := by
  have hfields : c.toJson.fields? ["info", "warning", "error"] =
      some [some (.ofUInt32 c.info), some (.ofUInt32 c.warning), some (.ofUInt32 c.error)] := rfl
  simp [ofJson?, hfields, asUInt32?_ofUInt32]

theorem Summary.legible_toJson (s : Summary) : s.toJson.Legible :=
  .object (by simp [legible_ofUInt32, Counts.legible_toJson])

theorem Summary.ofJson?_toJson (s : Summary) : Summary.ofJson? s.toJson = some s := by
  have hfields : s.toJson.fields? ["artifacts_scanned", "findings_total", "counts"] =
      some [some (.ofUInt32 s.artifactsScanned), some (.ofUInt32 s.findingsTotal),
        some s.counts.toJson] := rfl
  simp [ofJson?, hfields, asUInt32?_ofUInt32, Counts.ofJson?_toJson]

namespace Report

theorem legible_toJson (r : Report) : r.toJson.Legible := by
  have hfindings : (Finding.listToJson r.findings).Legible :=
    .array (List.forall_mem_map.mpr fun f _ ↦ f.legible_toJson)
  exact .object (by
    simp [Legible.string, Tool.legible_toJson, hfindings, Summary.legible_toJson])

theorem ofJson?_toJson (r : Report) : ofJson? r.toJson = some r := by
  have hfields : r.toJson.fields?
      ["schema", "tool", "started_at", "finished_at", "verdict", "findings", "data"] =
      some [some (.string r.schema), some r.tool.toJson, some (.string r.startedAt.text),
        some (.string r.finishedAt.text), some (.string r.verdict.name),
        some (Finding.listToJson r.findings), some r.summary.toJson] := rfl
  simp [ofJson?, hfields, Json.asString?, Json.asChoice?, Tool.ofJson?_toJson,
    Timestamp.read?_text, Verdict.ofName?_name, Finding.listOfJson?_listToJson,
    Summary.ofJson?_toJson]

theorem parse?_render (r : Report) : parse? (r.render .json) = some r := by
  show parse? r.toJson.pretty = some r
  rw [parse?, Json.parse?_pretty r.legible_toJson, Option.bind_some, ofJson?_toJson]

/-- Every report is what its JSON spells. What a text spells has timestamps that can be written,
and so the JSON that a text is turned into spells what the text did. -/
theorem parse?_render_json : (∀ r : Report, parse? (r.render .json) = some r) ∧
    ∀ text r, parse? text = some r →
      (∀ t ∈ [r.startedAt, r.finishedAt], t.year ≤ 9999 ∧ t.offset.natAbs ≤ 23 * 60 + 59) ∧
        parse? (r.render .json) = some r := by
  refine ⟨parse?_render, fun text r _ ↦ ⟨fun t _ ↦ ⟨t.isDate.1, ?_⟩, r.parse?_render⟩⟩
  exact Nat.le_of_lt_succ t.isOffset

/-- Records as arrays, a severity as an object, a leap second, an offset below zero by nothing, ten
decimals, other characters between date and time and an escape. -/
def unusualText : String :=
  "[\"s\",[\"t\",\"1\"],\"2016-12-31x23:59:60-00:00\",\"2017-02-28_08:30:00.1234567899+23:59\"," ++
    "\"warn\",[[\"DG001\",\x7b\"error\":null\x7d,\"m\",\"f\"],\x7b\"line\":7,\"file\":\"f\"," ++
      "\"message\":\"\\u00e9\",\"severity\":\"info\",\"rule\":\"\"\x7d],[2,1,[0,1,4294967295]]]"

/-- What the unusual text spells. -/
def unusual : Report where
  schema := "s"
  tool := ⟨"t", "1"⟩
  startedAt :=
    ⟨2016, 12, 31, 23, 59, 59, 999999999, 0, by decide, by decide, Timestamp.epoch.isOffset⟩
  finishedAt := ⟨2017, 2, 28, 8, 30, 0, 123456789, 23 * 60 + 59, by decide, by decide, by decide⟩
  verdict := .warn
  findings := [⟨"DG001", .error, "m", "f", none⟩, ⟨"", .info, "é", "f", some 7⟩]
  summary := ⟨2, 1, ⟨0, 1, 4294967295⟩⟩

theorem parse?_render_json_unusual : parse? unusualText = some unusual ∧
    unusual.finishedAt.offset.natAbs ≤ 23 * 60 + 59 ∧
      parse? (unusual.render .json) = some unusual := by
  have hread : parse? unusualText = some unusual := by
    unfold parse? Json.parse? unusualText
    simp only [String.toList_append]
    rw [String.toList_ofList, String.toList_ofList, String.toList_ofList]
    decide +kernel
  obtain ⟨hrange, hback⟩ := parse?_render_json.2 unusualText unusual hread
  exact ⟨hread, (hrange unusual.finishedAt (by simp)).2, hback⟩

end Report

end ShutdownLint
