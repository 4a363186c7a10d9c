import Mathlib.Data.List.Forall2
import ShutdownLint.Proofs.Check.Severity
import ShutdownLint.Proofs.Report.ReadBack
/-!
SARIF logs are read back.

A log is legible, whatever the texts of the findings and of the tool are, so its text spells a
value. In this value everything is found under the names that lead to it: the single run, the
results, one for each finding in their order, and the rules, among which are those of all findings
that an analysis has.
-/

set_option autoImplicit false

namespace ShutdownLint

/-- The value that is found under names, each in the object before. -/
def Json.at? (v : Json) (names : List String) : Option Json :=
  names.foldlM (fun v name ↦ v.member? name) v

namespace Report.Sarif

open Json (Legible)

/-! ### Legible values -/

theorem legible_message (s : String) : (message s).Legible :=
  .object (by simp [Legible.string])

theorem legible_rule (id : String) : (rule id).Legible :=
  .object (by simp [Legible.string, legible_message])

theorem legible_location (file : String) (line : UInt32) : (location file line).Legible := by
  have hartifact : (Json.object [("uri", .string file)]).Legible :=
    .object (by simp [Legible.string])
  have hregion : (Json.object [("startLine", .ofUInt32 line)]).Legible :=
    .object (by simp [Json.legible_ofUInt32])
  have hphysical : (Json.object [("artifactLocation", .object [("uri", .string file)]),
      ("region", .object [("startLine", .ofUInt32 line)])]).Legible :=
    .object (by simp [hartifact, hregion])
  exact .object (by simp [hphysical])

theorem legible_result (f : Finding) : (result f).Legible := by
  have hlocations : (Json.array (f.line.map (location f.file)).toList).Legible := by
    refine .array fun l hl ↦ ?_
    obtain ⟨n, -, rfl⟩ := Option.map_eq_some_iff.mp (Option.mem_toList.mp hl)
    exact legible_location f.file n
  exact .object (by simp [Legible.string, legible_message, hlocations])

/-- What a log says about the tool. -/
def driver (tool : Tool) : Json :=
  .object [("name", .string displayName), ("version", .string tool.version),
    ("rules", .array (Rule.allIds.map rule))]

/-- The single run of a log. -/
def run (tool : Tool) (fs : List Finding) : Json :=
  .object [("tool", .object [("driver", driver tool)]), ("results", .array (fs.map result))]

theorem log_eq (tool : Tool) (fs : List Finding) : log tool fs = .object
    [("$schema", .string schema), ("version", .string version), ("runs", .array [run tool fs])] :=
  rfl

theorem legible_log (tool : Tool) (fs : List Finding) : (log tool fs).Legible := by
  have hrules : (Json.array (Rule.allIds.map rule)).Legible :=
    .array (List.forall_mem_map.mpr fun id _ ↦ legible_rule id)
  have hresults : (Json.array (fs.map result)).Legible :=
    .array (List.forall_mem_map.mpr fun f _ ↦ legible_result f)
  have hdriver : (driver tool).Legible := .object (by simp [Legible.string, hrules])
  have htool : (Json.object [("driver", driver tool)]).Legible := .object (by simp [hdriver])
  have hrun : (run tool fs).Legible := .object (by simp [htool, hresults])
  have hruns : (Json.array [run tool fs]).Legible := .array (by simp [hrun])
  rw [log_eq]
  exact .object (by simp [Legible.string, hruns])

/-! ### The log -/

/-- A result says what a finding does: under which rule it is, whether it is an error, its message,
and where it is if it has a line. -/
structure Tells (f : Finding) (r : Json) : Prop where
  rule : r.at? ["ruleId"] = some (.string f.rule)
  level : r.at? ["level"] = some (.string (if f.severity = .error then "error" else "warning"))
  message : r.at? ["message", "text"] = some (.string f.message)
  unlocated : f.line = none → r.at? ["locations"] = some (.array [])
  located : ∀ n, f.line = some n → ∃ l, r.at? ["locations"] = some (.array [l]) ∧
    l.at? ["physicalLocation", "artifactLocation", "uri"] = some (.string f.file) ∧
      (l.at? ["physicalLocation", "region", "startLine"]).bind Json.asUInt32? = some n

theorem tells_result (f : Finding) : Tells f (result f) where
  rule := rfl
  level := rfl
  message := rfl
  unlocated hline := by
    show some (Json.array (f.line.map (location f.file)).toList) = _
    rw [hline]
    rfl
  located n hline := by
    refine ⟨location f.file n, ?_, rfl, Json.asUInt32?_ofUInt32 n⟩
    show some (Json.array (f.line.map (location f.file)).toList) = _
    rw [hline]
    rfl

/-- The text of a log is JSON with a single run, in which there is a result for each finding in
their order. The run has the version of the tool, and all rules in their order, among which are
those of all findings that an analysis has. -/
theorem parse?_renderSarif (tool : Tool) (fs : List Finding) :
    ∃ log run results rules, Json.parse? (renderSarif tool fs) = some log ∧
      log.at? ["runs"] = some (.array [run]) ∧
      run.at? ["results"] = some (.array results) ∧ List.Forall₂ Tells fs results ∧
      run.at? ["tool", "driver", "version"] = some (.string tool.version) ∧
      run.at? ["tool", "driver", "rules"] = some (.array rules) ∧
      rules.map (·.at? ["id"]) = Rule.all.map (fun r ↦ some (.string r.id)) ∧
      ∀ (kind : ArtifactKind) (content file : String), ∀ f ∈ kind.findings content file,
        ∃ r ∈ rules, r.at? ["id"] = some (.string f.rule) := by
  refine ⟨log tool fs, run tool fs, fs.map result, Rule.allIds.map rule,
    Json.parse?_pretty (legible_log tool fs), rfl, rfl, ?_, rfl, rfl, rfl, ?_⟩
  · rw [List.forall₂_map_right_iff]
    exact List.forall₂_same.mpr fun f _ ↦ tells_result f
  · intro kind content file f hf
    obtain ⟨r, -, hrule, -⟩ := ArtifactKind.exists_rule_of_mem hf
    refine ⟨rule r.id, List.mem_map_of_mem (Rule.mem_allIds_iff.mpr ⟨r, rfl⟩), ?_⟩
    rw [hrule]
    rfl

/-- Of a command and an entry point that a build file launches through a shell, the second one has
its rule in the log of any findings. -/
theorem parse?_renderSarif_entrypoint :
    (⟨"DG001", .error, Rule.shellEntrypoint.template, "Dockerfile", some 2⟩ : Finding) ∈
        ArtifactKind.buildFile.findings "CMD a\nENTRYPOINT b\n" "Dockerfile" ∧
      ∃ log run rules r, Json.parse? (renderSarif ⟨"\n", "\"\x00"⟩
          [⟨"\\", .info, "\u00e9\x1f", "", none⟩]) = some log ∧
        log.at? ["runs"] = some (.array [run]) ∧
        run.at? ["tool", "driver", "rules"] = some (.array rules) ∧ r ∈ rules ∧
        r.at? ["id"] = some (.string "DG001") := by
  have hmem : (⟨"DG001", .error, Rule.shellEntrypoint.template, "Dockerfile", some 2⟩ : Finding) ∈
      ArtifactKind.buildFile.findings "CMD a\nENTRYPOINT b\n" "Dockerfile" := by decide
  obtain ⟨log, run, -, rules, hlog, hrun, -, -, -, hrules, -, hdeclared⟩ :=
    parse?_renderSarif ⟨"\n", "\"\x00"⟩ [⟨"\\", .info, "\u00e9\x1f", "", none⟩]
  obtain ⟨r, hr, hid⟩ := hdeclared _ _ _ _ hmem
  exact ⟨hmem, log, run, rules, r, hlog, hrun, hrules, hr, hid⟩

end Report.Sarif

end ShutdownLint
