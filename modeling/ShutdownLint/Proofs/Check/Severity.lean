import ShutdownLint.Proofs.BuildFile.LineFindings
import ShutdownLint.Proofs.Check.Stages
/-!
Where errors come from. Manifests give rise to warnings only, and a build file to an error exactly
if one of its lines launches its entry point through a shell. What is found on several artifacts is
found on one of them, so that a run fails exactly if one of its build files has such a line and the
rule against it is in force.
-/

set_option autoImplicit false

namespace ShutdownLint

/-! ### Verdicts -/

theorem Verdict.ofFindings_eq_fail_iff {fs : List Finding} :
    Verdict.ofFindings fs = .fail ↔ ∃ f ∈ fs, f.severity = .error := by
  unfold Verdict.ofFindings
  split_ifs with herror hempty
  · simpa using herror
  · simpa using herror
  · simpa using herror

theorem Verdict.ofFindings_eq_pass_iff {fs : List Finding} :
    Verdict.ofFindings fs = .pass ↔ fs = [] := by
  cases fs with
  | nil => exact ⟨fun _ ↦ rfl, fun _ ↦ rfl⟩
  | cons f fs =>
    unfold Verdict.ofFindings
    cases (f :: fs).any (·.severity == .error) <;> simp

theorem Verdict.ofFindings_eq_fail_iff_countP {fs : List Finding} :
    Verdict.ofFindings fs = .fail ↔ 0 < fs.countP (·.severity == .error) := by
  rw [Verdict.ofFindings_eq_fail_iff, List.countP_pos_iff]
  simp only [beq_iff_eq]

theorem Verdict.exitCode_eq_one_iff {v : Verdict} : v.exitCode = 1 ↔ v = .fail := by
  cases v <;> decide

theorem Verdict.exitCode_eq_zero_iff {v : Verdict} : v.exitCode = 0 ↔ v ≠ .fail := by
  cases v <;> decide

/-! ### Findings on one artifact -/

theorem Rule.severity_eq_error_iff {r : Rule} : r.severity = .error ↔ r = .shellEntrypoint := by
  cases r <;> decide

/-- The finding is one under a rule, whatever it says and wherever it is. -/
def Finding.IsUnder (f : Finding) (r : Rule) : Prop :=
  f.rule = r.id ∧ f.severity = r.severity

theorem Container.exists_rule_of_mem {c : Container} {file : String} {f : Finding}
    (h : f ∈ c.findings file) : ∃ r : Rule, r.target = .manifest ∧ f.IsUnder r := by
  rcases List.mem_append.mp h with h | h
  · split_ifs at h
    · cases h
    · obtain rfl := List.mem_singleton.mp h
      exact ⟨.missingPreStop, rfl, rfl, rfl⟩
  · split_ifs at h
    · cases h
    · obtain rfl := List.mem_singleton.mp h
      exact ⟨.missingReadinessProbe, rfl, rfl, rfl⟩

theorem PodSpec.exists_rule_of_mem {p : PodSpec} {file : String} {f : Finding}
    (h : f ∈ p.findings file) : ∃ r : Rule, r.target = .manifest ∧ f.IsUnder r := by
  rcases List.mem_append.mp h with h | h
  · split_ifs at h
    · cases h
    · obtain rfl := List.mem_singleton.mp h
      exact ⟨.unsetGracePeriod, rfl, rfl, rfl⟩
  · obtain ⟨c, -, hc⟩ := List.mem_flatMap.mp h
    exact Container.exists_rule_of_mem hc

theorem Workload.exists_rule_of_mem {content file : String} {f : Finding}
    (h : f ∈ Workload.findings content file) :
    ∃ r : Rule, r.target = .manifest ∧ f.IsUnder r := by
  unfold Workload.findings at h
  split at h
  · obtain ⟨d, -, hd⟩ := List.mem_flatMap.mp h
    unfold Workload.documentFindings at hd
    split at hd
    · exact PodSpec.exists_rule_of_mem hd
    · cases hd
  · cases h

namespace BuildFile

open Text

/-- Some line of a build file launches its entry point through a shell. -/
def HasShellEntrypoint (content : String) : Prop :=
  ∃ line ∈ linePieces (withoutMark content.toList), ShellForm "ENTRYPOINT" line

theorem exists_rule_of_mem {content file : String} {f : Finding} (h : f ∈ findings content file) :
    ∃ r : Rule, r.target = .buildFile ∧ f.IsUnder r := by
  obtain ⟨k, line, r, -, hr, rfl⟩ := mem_findings_iff.mp h
  rcases violation?_cases.mp hr with ⟨-, rfl⟩ | ⟨-, rfl⟩
  · exact ⟨.shellEntrypoint, rfl, rfl, rfl⟩
  · exact ⟨.shellCommand, rfl, rfl, rfl⟩

theorem exists_error_iff {content file : String} :
    (∃ f ∈ findings content file, f.severity = .error) ↔ HasShellEntrypoint content := by
  constructor
  · rintro ⟨f, hf, herror⟩
    obtain ⟨k, line, r, hk, hr, rfl⟩ := mem_findings_iff.mp hf
    obtain rfl : r = .shellEntrypoint := Rule.severity_eq_error_iff.mp herror
    rcases violation?_cases.mp hr with ⟨hform, -⟩ | ⟨-, hrule⟩
    · exact ⟨line, List.mem_of_getElem? hk, hform⟩
    · cases hrule
  · rintro ⟨line, hline, hform⟩
    obtain ⟨k, hk⟩ := List.mem_iff_getElem?.mp hline
    have hr : violation? line = some .shellEntrypoint := violation?_cases.mpr (Or.inl ⟨hform, rfl⟩)
    exact ⟨_, mem_findings_iff.mpr ⟨k, line, _, hk, hr, rfl⟩, rfl⟩

end BuildFile

namespace ArtifactKind

theorem exists_rule_of_mem {kind : ArtifactKind} {content file : String} {f : Finding}
    (h : f ∈ kind.findings content file) : ∃ r : Rule, r.target = kind ∧ f.IsUnder r := by
  cases kind with
  | buildFile => exact BuildFile.exists_rule_of_mem h
  | manifest => exact Workload.exists_rule_of_mem h

/-- Errors are found under one rule only. -/
theorem rule_of_error {kind : ArtifactKind} {content file : String} {f : Finding}
    (h : f ∈ kind.findings content file) (herror : f.severity = .error) :
    kind = .buildFile ∧ f.rule = Rule.shellEntrypoint.id := by
  obtain ⟨r, rfl, hrule, hseverity⟩ := exists_rule_of_mem h
  obtain rfl := Rule.severity_eq_error_iff.mp (hseverity.symm.trans herror)
  exact ⟨rfl, hrule⟩

theorem exists_enabled_error_iff {kind : ArtifactKind} {content file : String} {s : Selection} :
    (∃ f ∈ kind.findings content file, s.isEnabled f.rule = true ∧ f.severity = .error) ↔
      s.isEnabled Rule.shellEntrypoint.id = true ∧ kind = .buildFile ∧
        BuildFile.HasShellEntrypoint content := by
  constructor
  · rintro ⟨f, hf, henabled, herror⟩
    obtain ⟨rfl, hrule⟩ := rule_of_error hf herror
    exact ⟨hrule ▸ henabled, rfl, BuildFile.exists_error_iff.mp ⟨f, hf, herror⟩⟩
  · rintro ⟨henabled, rfl, hshell⟩
    obtain ⟨f, hf, herror⟩ := BuildFile.exists_error_iff.mpr hshell
    have hmem : f ∈ buildFile.findings content file := hf
    exact ⟨f, hf, (rule_of_error hmem herror).2 ▸ henabled, herror⟩

end ArtifactKind

/-! ### Findings on several artifacts -/

namespace Check

/-- An artifact is a build file that launches its entry point through a shell. -/
def LaunchesThroughShell (fs : FileSystem) (a : Artifact) : Prop :=
  a.kind = .buildFile ∧ ∃ bytes, fs.read a.path = .ok bytes ∧
    BuildFile.HasShellEntrypoint (Text.Utf8.lossy bytes)

theorem exists_enabled_error_iff {fs : FileSystem} {a : Artifact} {s : Selection} :
    (∃ block, analyze fs a = .ok block ∧
        ∃ f ∈ block, s.isEnabled f.rule = true ∧ f.severity = .error) ↔
      s.isEnabled Rule.shellEntrypoint.id = true ∧ LaunchesThroughShell fs a := by
  constructor
  · rintro ⟨block, hblock, hf⟩
    obtain ⟨bytes, hbytes, rfl⟩ := analyze_eq_ok_iff.mp hblock
    obtain ⟨henabled, hkind, hshell⟩ := ArtifactKind.exists_enabled_error_iff.mp hf
    exact ⟨henabled, hkind, bytes, hbytes, hshell⟩
  · rintro ⟨henabled, hkind, bytes, hbytes, hshell⟩
    exact ⟨_, analyze_eq_ok_iff.mpr ⟨bytes, hbytes, rfl⟩,
      ArtifactKind.exists_enabled_error_iff.mpr ⟨henabled, hkind, hshell⟩⟩

/-- Of what is found, the part under rules in force fails exactly because of an entry point. -/
theorem verdict_select_eq_fail_iff {fs : FileSystem} {as : List Artifact} {found : List Finding}
    (h : analyzeAll fs as = .ok found) {s : Selection} :
    Verdict.ofFindings (select s found) = .fail ↔
      s.isEnabled Rule.shellEntrypoint.id = true ∧ ∃ a ∈ as, LaunchesThroughShell fs a := by
  rw [Verdict.ofFindings_eq_fail_iff]
  constructor
  · rintro ⟨f, hf, herror⟩
    obtain ⟨hf, henabled⟩ := List.mem_filter.mp hf
    obtain ⟨a, ha, block, hblock, hmem⟩ := (mem_analyzeAll_iff h).mp hf
    obtain ⟨hrule, hshell⟩ :=
      exists_enabled_error_iff.mp ⟨block, hblock, f, hmem, henabled, herror⟩
    exact ⟨hrule, a, ha, hshell⟩
  · rintro ⟨hrule, a, ha, hshell⟩
    obtain ⟨block, hblock, f, hmem, henabled, herror⟩ :=
      exists_enabled_error_iff.mpr ⟨hrule, hshell⟩
    have hf : f ∈ found := (mem_analyzeAll_iff h).mpr ⟨a, ha, block, hblock, hmem⟩
    exact ⟨f, List.mem_filter.mpr ⟨hf, henabled⟩, herror⟩

end Check

end ShutdownLint
