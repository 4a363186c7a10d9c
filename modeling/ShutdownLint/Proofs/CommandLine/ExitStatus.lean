import ShutdownLint.CommandLine.Run
import ShutdownLint.Proofs.Check.Severity
/-!
The exit status of a check. A check comes to its end if its format, its settings and its overrides
make sense, all its paths lead somewhere, what they lead to can be read and the report can be
written; otherwise its exit status is that of an error. A check that comes to its end has the status
1 if a build file launches its entry point through a shell and the rule against this is in force,
and the status 0 in all other cases.
-/

set_option autoImplicit false

namespace ShutdownLint

open Success

/-! ### Writing -/

namespace FileSystem

/-- What is written plays no part in whether it can be written, and where. -/
theorem write_cases (fs : FileSystem) (p : Path) :
    (∃ e, ∀ content, fs.write p content = .error e) ∨
      ∃ t, ∀ content, fs.write p content = .ok (fs.putAt t (.file content)) := by
  unfold write
  cases fs.target p with
  | error e => exact Or.inl ⟨e, fun _ ↦ rfl⟩
  | ok found =>
    cases found with
    | none => exact Or.inl ⟨.isDirectory, fun _ ↦ rfl⟩
    | some t =>
      by_cases hslash : t.hasSlash = true
      · exact Or.inl ⟨.isDirectory, fun _ ↦ by simp [hslash, bind, Except.bind]⟩
      · cases hentry : fs.entryAt t with
        | error e => exact Or.inl ⟨e, fun _ ↦ by simp [hslash, hentry, bind, Except.bind]⟩
        | ok entry =>
          match entry with
          | some (.directory _) =>
            exact Or.inl ⟨.isDirectory, fun _ ↦ by simp [hslash, hentry, bind, Except.bind]⟩
          | some (.file _) =>
            exact Or.inr ⟨t, fun _ ↦ by simp [hslash, hentry, bind, Except.bind, pure, Except.pure]⟩
          | none =>
            exact Or.inr ⟨t, fun _ ↦ by simp [hslash, hentry, bind, Except.bind, pure, Except.pure]⟩

theorem writeText_snd_congr (fs : FileSystem) (p : Path) (text text' : String) :
    (fs.writeText p text).2 = (fs.writeText p text').2 := by
  unfold writeText
  match fs.createParent p with
  | (fs, .error e) => rfl
  | (fs, .ok ()) =>
    rcases fs.write_cases p with ⟨e, h⟩ | ⟨t, h⟩
    · simp only [h]
    · simp only [h]

end FileSystem

namespace CommandLine

theorem exitCode_ne_errorCode (v : Verdict) : v.exitCode ≠ Outcome.errorCode := by
  cases v <;> decide

namespace CheckCommand

theorem writeReport_snd_congr (c : CheckCommand) (fs : FileSystem) (format : ReportFormat)
    (text text' : String) :
    (c.writeReport fs format text).2 = (c.writeReport fs format text').2 := by
  unfold writeReport
  split
  · rfl
  · simp only [fs.writeText_snd_congr _ text text']

/-- The request that a command makes when its settings file has this text. -/
def request (c : CheckCommand) (settings : String) : CheckRequest :=
  { paths := c.paths, settings, overrides := c.disable }

/-- A check comes to its end with this selection of rules and these artifacts. -/
structure Completes (c : CheckCommand) (fs : FileSystem) (format : ReportFormat)
    (selection : Selection) (artifacts : List Artifact) : Prop where
  format_known : ReportFormat.ofSpelling c.format = .ok format
  settings_valid : ∃ text, readSettings fs c.config = .ok text ∧
    Check.selectionOf (c.request text) = .ok selection
  paths_found : Artifact.ofArguments fs c.paths = .ok artifacts
  artifacts_readable : ∀ a ∈ artifacts, ∃ bytes, fs.read a.path = .ok bytes
  report_writable : ∀ text, (c.writeReport fs format text).2 = .ok ()

theorem evaluate_eq_ok_iff {c : CheckCommand} {fs : FileSystem} {period : Period}
    {format : ReportFormat} {result : CheckResult} :
    c.evaluate fs period = .ok (format, result) ↔ ReportFormat.ofSpelling c.format = .ok format ∧
      ∃ text, readSettings fs c.config = .ok text ∧
        Check.run fs period (c.request text) = .ok result := by
  simp [evaluate, request]

/-! ### The exit status -/

theorem exitCode_run_of_error {c : CheckCommand} {fs : FileSystem} {period : Period} {e : RunError}
    (hpaths : c.paths ≠ []) (h : c.evaluate fs period = .error e) :
    (c.run fs period).exitCode = Outcome.errorCode := by
  unfold run
  rw [if_neg (by simpa using hpaths), h]

theorem exitCode_run_of_ok {c : CheckCommand} {fs : FileSystem} {period : Period}
    {format : ReportFormat} {result : CheckResult} (hpaths : c.paths ≠ [])
    (h : c.evaluate fs period = .ok (format, result)) :
    (c.run fs period).exitCode =
      match (c.writeReport fs format (result.report.render format)).2 with
      | .ok () => result.report.verdict.exitCode
      | .error _ => Outcome.errorCode := by
  unfold run
  rw [if_neg (by simpa using hpaths), h]
  dsimp only
  match c.writeReport fs format (result.report.render format) with
  | (fs, .ok ()) => rfl
  | (fs, .error e) => rfl

/-- A check that does not end with the status of an error comes to its end. -/
theorem completes_of_exitCode_ne {c : CheckCommand} {fs : FileSystem} {period : Period}
    (hpaths : c.paths ≠ []) (h : (c.run fs period).exitCode ≠ Outcome.errorCode) :
    ∃ format selection artifacts, c.Completes fs format selection artifacts := by
  cases heval : c.evaluate fs period with
  | error e => exact absurd (exitCode_run_of_error hpaths heval) h
  | ok pair =>
    obtain ⟨format, result⟩ := pair
    rw [exitCode_run_of_ok hpaths heval] at h
    obtain ⟨hformat, text, htext, hrun⟩ := evaluate_eq_ok_iff.mp heval
    obtain ⟨selection, artifacts, found, hselection, hartifacts, hfound, -⟩ :=
      Check.run_eq_ok_iff.mp hrun
    refine ⟨format, selection, artifacts, hformat, ⟨text, htext, hselection⟩, hartifacts,
      Check.exists_analyzeAll_eq_ok_iff.mp ⟨found, hfound⟩, fun written ↦ ?_⟩
    rw [c.writeReport_snd_congr fs format written (result.report.render format)]
    match hwrite : (c.writeReport fs format (result.report.render format)).2 with
    | .ok () => rfl
    | .error e => simp [hwrite] at h

/-- The status of a check that comes to its end is that of its findings. -/
theorem exitCode_of_completes {c : CheckCommand} {fs : FileSystem} {format : ReportFormat}
    {selection : Selection} {artifacts : List Artifact} (period : Period) (hpaths : c.paths ≠ [])
    (h : c.Completes fs format selection artifacts) :
    ∃ found, Check.analyzeAll fs artifacts = .ok found ∧
      (c.run fs period).exitCode =
        (Verdict.ofFindings (Check.select selection found)).exitCode := by
  obtain ⟨text, htext, hselection⟩ := h.settings_valid
  obtain ⟨found, hfound⟩ := Check.exists_analyzeAll_eq_ok_iff.mpr h.artifacts_readable
  have hrun : Check.run fs period (c.request text) = .ok _ := Check.run_eq_ok_iff.mpr
    ⟨selection, artifacts, found, hselection, h.paths_found, hfound, rfl⟩
  have heval := evaluate_eq_ok_iff.mpr ⟨h.format_known, text, htext, hrun⟩
  refine ⟨found, hfound, ?_⟩
  rw [exitCode_run_of_ok hpaths heval, h.report_writable]
  rfl

end CheckCommand

/-- Notes change nothing about how a check ends. -/
theorem exitCode_runInvocation_check (verbosity : Nat) (quiet : Bool) (c : CheckCommand)
    (fs : FileSystem) (period : Period) :
    (runInvocation ⟨verbosity, quiet, .check c⟩ fs period).exitCode = (c.run fs period).exitCode :=
  rfl

/-- A check of some paths ends with the status of an error unless it comes to its end. Then it ends
with 1 if the rule against entry points in shell form is in force and a build file among the
artifacts has a line of this form, and with 0 otherwise. -/
theorem exitCode_check {c : CheckCommand} (hpaths : c.paths ≠ []) (verbosity : Nat) (quiet : Bool)
    (fs : FileSystem) (period : Period) :
    ((runInvocation ⟨verbosity, quiet, .check c⟩ fs period).exitCode ≠ Outcome.errorCode ↔
      ∃ format selection artifacts, c.Completes fs format selection artifacts) ∧
    ∀ format selection artifacts, c.Completes fs format selection artifacts →
      ((runInvocation ⟨verbosity, quiet, .check c⟩ fs period).exitCode = 1 ↔
        selection.isEnabled "DG001" = true ∧
          ∃ a ∈ artifacts, a.kind = .buildFile ∧ ∃ bytes, fs.read a.path = .ok bytes ∧
            ∃ line ∈ Text.linePieces (BuildFile.withoutMark (Text.Utf8.lossy bytes).toList),
              BuildFile.ShellForm "ENTRYPOINT" line) ∧
      ((runInvocation ⟨verbosity, quiet, .check c⟩ fs period).exitCode ≠ 1 →
        (runInvocation ⟨verbosity, quiet, .check c⟩ fs period).exitCode = 0) := by
  simp only [exitCode_runInvocation_check]
  refine ⟨⟨CheckCommand.completes_of_exitCode_ne hpaths, ?_⟩, ?_⟩
  · rintro ⟨format, selection, artifacts, h⟩
    obtain ⟨found, -, hcode⟩ := CheckCommand.exitCode_of_completes period hpaths h
    rw [hcode]
    exact exitCode_ne_errorCode _
  · intro format selection artifacts h
    obtain ⟨found, hfound, hcode⟩ := CheckCommand.exitCode_of_completes period hpaths h
    rw [hcode, Verdict.exitCode_eq_one_iff, Verdict.exitCode_eq_zero_iff]
    exact ⟨Check.verdict_select_eq_fail_iff hfound, mt Verdict.exitCode_eq_one_iff.mpr⟩

/-- A manifest and a build file whose second line launches the entry point through a shell. -/
def shellEntrypointFiles : FileSystem where
  root := .directory [("pod.yaml", .file (Text.Utf8.encode "spec: \x7b\x7d\n")),
    ("Dockerfile", .file (Text.Utf8.encode "CMD [\"a\"]\n\tEntryPoint  run\r\n"))]
  workingDirectory := []

/-- A check of both, without the rule against commands and with a report to write. -/
def shellEntrypointCheck : CheckCommand where
  config := .ofText "drainguard.toml"
  format := " JUnit"
  reportOut := none
  disable := ["dg002"]
  paths := [.ofText "pod.yaml", .ofText "./Dockerfile"]

theorem exitCode_check_shellEntrypoint :
    shellEntrypointCheck.paths ≠ [] ∧
      (runInvocation ⟨0, false, .check shellEntrypointCheck⟩ shellEntrypointFiles
        default).exitCode = 1 := by
  have hpaths : shellEntrypointCheck.paths ≠ [] := by decide
  have hends : shellEntrypointCheck.Completes shellEntrypointFiles .junit
      (Selection.everything.disable "DG002")
      [⟨.ofText "pod.yaml", .manifest⟩, ⟨.ofText "./Dockerfile", .buildFile⟩] :=
    { format_known := by decide +kernel
      settings_valid := ⟨"", by decide +kernel, by decide +kernel⟩
      paths_found := by decide +kernel
      artifacts_readable := by
        simp only [List.forall_mem_cons, List.not_mem_nil, false_implies, implies_true, and_true]
        exact ⟨⟨_, rfl⟩, ⟨_, rfl⟩⟩
      report_writable := fun text ↦ by
        rw [CheckCommand.writeReport_snd_congr _ _ _ text ""]
        decide +kernel }
  have hcode := (exitCode_check hpaths 0 false shellEntrypointFiles default).2 _ _ _ hends
  refine ⟨hpaths, hcode.1.mpr ⟨by decide, _, List.mem_cons_of_mem _ List.mem_cons_self, rfl, _, rfl,
    "\tEntryPoint  run\r".toList, by decide +kernel, ?_⟩⟩
  exact ⟨['\t'], "EntryPoint".toList, [' ', ' '], 'r', "un\r".toList, by decide⟩

end CommandLine

end ShutdownLint
