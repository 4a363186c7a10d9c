import Mathlib.Data.List.DropRight
import ShutdownLint.Proofs.CommandLine.ExitStatus
import ShutdownLint.Proofs.Files.Writing
/-!
What a check leaves behind. A check that is refused, for one reason or for several, prints nothing
and changes nothing. Any other check makes at most one file, with the directories above it, and what
it prints is what it writes.
-/

set_option autoImplicit false

namespace ShutdownLint

open Success

/-! ### Line feeds at the end -/

/-- The same text, but with a single line feed at its end in place of all that stand there. -/
def Text.EndsInOneBreak (text printed : String) : Prop :=
  ∃ body count, text.toList = body ++ List.replicate count '\n' ∧ body.getLast? ≠ some '\n' ∧
    printed.toList = body ++ ['\n']

theorem Text.toList_dropLastBreaks (s : String) :
    (dropLastBreaks s).toList = s.toList.rdropWhile (· == '\n') :=
  String.toList_ofList

namespace CommandLine

namespace CheckCommand

theorem endsInOneBreak_printed (text : String) : Text.EndsInOneBreak text (printed text) := by
  have hsplit : text.toList.rdropWhile (· == '\n') ++ text.toList.rtakeWhile (· == '\n') =
      text.toList := List.rdropWhile_append_rtakeWhile
  have hbreaks : text.toList.rtakeWhile (· == '\n') =
      List.replicate (text.toList.rtakeWhile (· == '\n')).length '\n' := by
    refine List.eq_replicate_iff.mpr ⟨rfl, fun c hc ↦ ?_⟩
    simpa using List.mem_rtakeWhile_imp hc
  refine ⟨text.toList.rdropWhile (· == '\n'), (text.toList.rtakeWhile (· == '\n')).length, ?_, ?_,
    ?_⟩
  · rw [← hbreaks, hsplit]
  · intro hlast
    have hne : text.toList.rdropWhile (· == '\n') ≠ [] := by
      intro hnil
      rw [hnil] at hlast
      cases hlast
    have hnot := List.rdropWhile_last_not (· == '\n') text.toList hne
    rw [(List.getLast_eq_iff_getLast?_eq_some hne).mpr hlast] at hnot
    exact hnot (beq_self_eq_true '\n')
  · rw [printed, String.toList_append, Text.toList_dropLastBreaks]
    rfl

/-! ### Refusal -/

/-- The format that a check asks for, up to white space and case. -/
def AsksFor (c : CheckCommand) (format : ReportFormat) : Prop :=
  format.name = Text.lower (Text.trim c.format)

/-- A check makes no sense, whatever there is in the artifacts that its paths lead to. -/
inductive Refused (c : CheckCommand) (fs : FileSystem) : Prop
  | unknownFormat (h : ∀ format, ¬c.AsksFor format)
  /-- The settings file, if it is not just missing, cannot be read as text. -/
  | unreadableSettings {e : FileError} (h : fs.readText c.config = .error e)
      (hthere : e ≠ .notFound)
  /-- The settings file has a text that does not parse. A blank one has no settings. -/
  | badSettings {text : String} (h : fs.readText c.config = .ok text) {e : CheckError}
      (hbad : Check.settingsOf text = .error e)
  /-- The settings file has an entry for something that is no rule. -/
  | unknownRule {text : String} (h : fs.readText c.config = .ok text) {settings : Settings}
      (hsettings : Check.settingsOf text = .ok settings) {entry : String × RuleSetting}
      (hentry : entry ∈ settings.rules) (hunknown : Rule.ofSpelling? entry.1 = none)
  /-- Something is to be disabled that is no rule. -/
  | unknownOverride {spelling : String} (h : spelling ∈ c.disable)
      (hunknown : Rule.ofSpelling? spelling = none)
  | missingPath {p : Path} (h : p ∈ c.paths) {e : FileError} (hmissing : fs.find p = .error e)

theorem find?_all_name (format : ReportFormat) :
    ReportFormat.all.find? (·.name == format.name) = some format := by
  cases format <;> decide

theorem ofSpelling_eq_ok_iff {c : CheckCommand} {format : ReportFormat} :
    ReportFormat.ofSpelling c.format = .ok format ↔ c.AsksFor format := by
  unfold ReportFormat.ofSpelling AsksFor
  dsimp only
  generalize Text.lower (Text.trim c.format) = wanted
  constructor
  · intro h
    split at h
    · rename_i found hfound
      obtain rfl := Except.ok.inj h
      simpa using List.find?_some hfound
    · cases h
  · rintro rfl
    rw [find?_all_name]

theorem readSettings_eq_ok_iff {fs : FileSystem} {p : Path} {text : String} :
    readSettings fs p = .ok text ↔
      fs.readText p = .ok text ∨ fs.readText p = .error .notFound ∧ text = "" := by
  unfold readSettings
  split
  · rename_i found hfound
    simp [hfound]
  · rename_i hmissing
    simp [hmissing, eq_comm]
  · rename_i e hthere hfailed
    have hne : e ≠ .notFound := hthere
    simp [hfailed, hne]

theorem eq_of_readSettings {fs : FileSystem} {p : Path} {text other : String}
    (h : readSettings fs p = .ok text) (hother : fs.readText p = .ok other) : other = text := by
  rcases readSettings_eq_ok_iff.mp h with h | ⟨h, -⟩
  · exact Except.ok.inj (hother.symm.trans h)
  · cases hother.symm.trans h

theorem eq_notFound_of_readSettings {fs : FileSystem} {p : Path} {text : String} {e : FileError}
    (h : readSettings fs p = .ok text) (herror : fs.readText p = .error e) : e = .notFound := by
  rcases readSettings_eq_ok_iff.mp h with h | ⟨h, -⟩
  · cases h.symm.trans herror
  · exact Except.error.inj (herror.symm.trans h)

/-! The stages that a check which is not refused gets through. -/

variable {c : CheckCommand} {fs : FileSystem}

theorem exists_asksFor_of_not_refused (h : ¬c.Refused fs) : ∃ format, c.AsksFor format := by
  by_contra hnone
  exact h (.unknownFormat fun format hformat ↦ hnone ⟨format, hformat⟩)

theorem exists_settings_of_not_refused (h : ¬c.Refused fs) : ∃ text settings,
    readSettings fs c.config = .ok text ∧ Check.settingsOf text = .ok settings ∧
      ∀ entry ∈ settings.rules, Rule.ofSpelling? entry.1 ≠ none := by
  match hread : fs.readText c.config with
  | .ok text =>
    have htext : readSettings fs c.config = .ok text := readSettings_eq_ok_iff.mpr (Or.inl hread)
    match hsettings : Check.settingsOf text with
    | .ok settings =>
      exact ⟨text, settings, htext, hsettings,
        fun entry hentry hunknown ↦ h (.unknownRule hread hsettings hentry hunknown)⟩
    | .error e => exact absurd (.badSettings hread hsettings) h
  | .error e =>
    by_cases hmissing : e = .notFound
    · subst hmissing
      exact ⟨"", .empty, readSettings_eq_ok_iff.mpr (Or.inr ⟨hread, rfl⟩), rfl, fun _ ↦ nofun⟩
    · exact absurd (.unreadableSettings hread hmissing) h

theorem exists_selection_of_not_refused (h : ¬c.Refused fs) :
    ∃ text, readSettings fs c.config = .ok text ∧
      ∃ selection, Check.selectionOf (c.request text) = .ok selection := by
  obtain ⟨text, settings, htext, hsettings, hentries⟩ := exists_settings_of_not_refused h
  have hoverrides : ∀ spelling ∈ c.disable, Rule.ofSpelling? spelling ≠ none :=
    fun spelling hspelling hunknown ↦ h (.unknownOverride hspelling hunknown)
  exact ⟨text, htext,
    Check.exists_selectionOf_eq_ok_iff.mpr ⟨settings, hsettings, hentries, hoverrides⟩⟩

theorem exists_artifacts_of_not_refused (h : ¬c.Refused fs) :
    ∃ artifacts, Artifact.ofArguments fs c.paths = .ok artifacts := by
  refine Artifact.exists_ofArguments_eq_ok_iff.mpr fun p hp ↦ ?_
  match hfind : fs.find p with
  | .ok t => exact ⟨t, rfl⟩
  | .error e => exact absurd (.missingPath hp hfind) h

theorem not_refused_of_stages {format : ReportFormat} {text : String} (hformat : c.AsksFor format)
    (htext : readSettings fs c.config = .ok text)
    (hselection : ∃ selection, Check.selectionOf (c.request text) = .ok selection)
    (hartifacts : ∃ artifacts, Artifact.ofArguments fs c.paths = .ok artifacts) :
    ¬c.Refused fs := by
  obtain ⟨settings, hsettings, hentries, hoverrides⟩ :=
    Check.exists_selectionOf_eq_ok_iff.mp hselection
  intro hrefused
  cases hrefused with
  | unknownFormat h => exact h format hformat
  | unreadableSettings h hthere => exact hthere (eq_notFound_of_readSettings htext h)
  | badSettings h hbad =>
    obtain rfl := eq_of_readSettings htext h
    cases hsettings.symm.trans hbad
  | unknownRule h hsame hentry hunknown =>
    obtain rfl := eq_of_readSettings htext h
    obtain rfl := Except.ok.inj (hsettings.symm.trans hsame)
    exact hentries _ hentry hunknown
  | unknownOverride h hunknown => exact hoverrides _ h hunknown
  | missingPath h hmissing =>
    obtain ⟨t, ht⟩ := Artifact.exists_ofArguments_eq_ok_iff.mp hartifacts _ h
    cases ht.symm.trans hmissing

/-- A check is not refused exactly if its format, its rules and its artifacts are known. -/
theorem not_refused_iff : ¬c.Refused fs ↔
    (∃ format, ReportFormat.ofSpelling c.format = .ok format) ∧
      (∃ text, readSettings fs c.config = .ok text ∧
        ∃ selection, Check.selectionOf (c.request text) = .ok selection) ∧
      ∃ artifacts, Artifact.ofArguments fs c.paths = .ok artifacts := by
  simp only [ofSpelling_eq_ok_iff]
  constructor
  · exact fun h ↦ ⟨exists_asksFor_of_not_refused h, exists_selection_of_not_refused h,
      exists_artifacts_of_not_refused h⟩
  · rintro ⟨⟨format, hformat⟩, ⟨text, htext, hselection⟩, hartifacts⟩
    exact not_refused_of_stages hformat htext hselection hartifacts

/-! ### The run -/

theorem run_of_error {c : CheckCommand} {fs : FileSystem} {period : Period} {e : RunError}
    (hpaths : c.paths ≠ []) (h : c.evaluate fs period = .error e) :
    c.run fs period = ⟨"", e.text, [], Outcome.errorCode, fs⟩ := by
  unfold run
  rw [if_neg (by simpa using hpaths), h]

theorem run_of_ok {c : CheckCommand} {fs : FileSystem} {period : Period} {format : ReportFormat}
    {result : CheckResult} (hpaths : c.paths ≠ [])
    (h : c.evaluate fs period = .ok (format, result)) :
    (c.run fs period).stdout = printed (result.report.render format) ∧
      (c.run fs period).files = (c.writeReport fs format (result.report.render format)).1 := by
  unfold run
  rw [if_neg (by simpa using hpaths), h]
  dsimp only
  match c.writeReport fs format (result.report.render format) with
  | (fs, .ok ()) => exact ⟨rfl, rfl⟩
  | (fs, .error e) => exact ⟨rfl, rfl⟩

theorem not_refused_of_evaluate {c : CheckCommand} {fs : FileSystem} {period : Period}
    {format : ReportFormat} {result : CheckResult}
    (h : c.evaluate fs period = .ok (format, result)) : ¬c.Refused fs := by
  obtain ⟨hformat, text, htext, hrun⟩ := evaluate_eq_ok_iff.mp h
  obtain ⟨selection, artifacts, -, hselection, hartifacts, -⟩ := Check.run_eq_ok_iff.mp hrun
  exact not_refused_iff.mpr ⟨⟨format, hformat⟩, ⟨text, htext, selection, hselection⟩, artifacts,
    hartifacts⟩

/-- One of the artifacts that are found cannot be read. -/
def HasUnreadableArtifact (c : CheckCommand) (fs : FileSystem) : Prop :=
  ∃ artifacts, Artifact.ofArguments fs c.paths = .ok artifacts ∧
    ∃ a ∈ artifacts, ∃ e, fs.read a.path = .error e

/-- A check that is not refused has a result unless there is something that cannot be read. -/
theorem exists_evaluate_eq_ok_iff {c : CheckCommand} {fs : FileSystem} {period : Period}
    {format : ReportFormat} (h : ¬c.Refused fs) (hformat : c.AsksFor format) :
    (∃ result, c.evaluate fs period = .ok (format, result)) ↔ ¬c.HasUnreadableArtifact fs := by
  obtain ⟨-, ⟨text, htext, selection, hselection⟩, artifacts, hartifacts⟩ := not_refused_iff.mp h
  constructor
  · rintro ⟨result, heval⟩ ⟨same, hsame, a, ha, e, hunreadable⟩
    obtain ⟨-, _, -, hrun⟩ := evaluate_eq_ok_iff.mp heval
    obtain ⟨_, others, found, -, hothers, hfound, -⟩ := Check.run_eq_ok_iff.mp hrun
    obtain rfl := Except.ok.inj (hsame.symm.trans hothers)
    obtain ⟨bytes, hbytes⟩ := Check.exists_analyzeAll_eq_ok_iff.mp ⟨found, hfound⟩ a ha
    cases hbytes.symm.trans hunreadable
  · intro hreadable
    have hread : ∀ a ∈ artifacts, ∃ bytes, fs.read a.path = .ok bytes := by
      intro a ha
      match hbytes : fs.read a.path with
      | .ok bytes => exact ⟨bytes, rfl⟩
      | .error e => exact absurd ⟨artifacts, hartifacts, a, ha, e, hbytes⟩ hreadable
    obtain ⟨found, hfound⟩ := Check.exists_analyzeAll_eq_ok_iff.mpr hread
    exact ⟨_, evaluate_eq_ok_iff.mpr ⟨ofSpelling_eq_ok_iff.mpr hformat, text, htext,
      Check.run_eq_ok_iff.mpr ⟨selection, artifacts, found, hselection, hartifacts, hfound, rfl⟩⟩⟩

end CheckCommand

/-! ### The effects -/

/-- A run has failed without having printed or changed anything. -/
structure Outcome.LeavesNoTrace (o : Outcome) (fs : FileSystem) : Prop where
  exitCode : o.exitCode = errorCode
  stdout : o.stdout = ""
  files : o.files = fs

/-- A text has been written to a path, and printed with a single line feed at its end. -/
structure Outcome.Reports (o : Outcome) (fs : FileSystem) (p : Path) (text : String) : Prop where
  written : fs.Written o.files p text
  printed : Text.EndsInOneBreak text o.stdout

theorem Outcome.LeavesNoTrace.withNotes {o : Outcome} {fs : FileSystem} (h : o.LeavesNoTrace fs)
    (notes : List Note) : Outcome.LeavesNoTrace { o with notes } fs :=
  ⟨h.exitCode, h.stdout, h.files⟩

theorem Outcome.Reports.withNotes {o : Outcome} {fs : FileSystem} {p : Path} {text : String}
    (h : o.Reports fs p text) (notes : List Note) : Outcome.Reports { o with notes } fs p text :=
  ⟨h.written, h.printed⟩

/-- What a check leaves behind that ends in some way. -/
structure CheckCommand.Effects (c : CheckCommand) (fs : FileSystem) (period : Period)
    (o : Outcome) : Prop where
  idle : c.paths = [] → o.stdout = banner ∧ o.exitCode = 0 ∧ o.files = fs
  refused : c.paths ≠ [] → c.Refused fs → o.LeavesNoTrace fs
  text : c.paths ≠ [] → ¬c.Refused fs → c.AsksFor .text → o.files = fs
  unreadable : c.paths ≠ [] → ¬c.Refused fs → c.HasUnreadableArtifact fs → o.LeavesNoTrace fs
  /-- In the formats that are for files the report goes to the path that is given or else to the one
  of the format. -/
  file : c.paths ≠ [] → ¬c.Refused fs → ¬c.HasUnreadableArtifact fs → ∀ format, c.AsksFor format →
    format ≠ .text → ∃ standard result, format.defaultPath? = some standard ∧
      c.evaluate fs period = .ok (format, result) ∧
      ((fs.writeText (c.reportOut.getD (.ofText standard)) (result.report.render format)).2 =
          .ok () →
        o.Reports fs (c.reportOut.getD (.ofText standard)) (result.report.render format))

namespace CheckCommand

theorem leavesNoTrace_of_error {c : CheckCommand} {fs : FileSystem} {period : Period}
    {e : RunError} (hpaths : c.paths ≠ []) (h : c.evaluate fs period = .error e) :
    (c.run fs period).LeavesNoTrace fs := by
  rw [run_of_error hpaths h]
  exact ⟨rfl, rfl, rfl⟩

theorem leavesNoTrace_of_refused {c : CheckCommand} {fs : FileSystem} (period : Period)
    (hpaths : c.paths ≠ []) (h : c.Refused fs) : (c.run fs period).LeavesNoTrace fs := by
  match heval : c.evaluate fs period with
  | .error e => exact leavesNoTrace_of_error hpaths heval
  | .ok (format, result) => exact absurd h (not_refused_of_evaluate heval)

theorem writeReport_text (c : CheckCommand) (fs : FileSystem) (text : String) :
    (c.writeReport fs .text text).1 = fs :=
  rfl

theorem exists_defaultPath?_eq_some {format : ReportFormat} (h : format ≠ .text) :
    ∃ standard, format.defaultPath? = some standard := by
  cases format with
  | text => exact absurd rfl h
  | junit | sarif | json => exact ⟨_, rfl⟩

theorem writeReport_of_defaultPath? {c : CheckCommand} {fs : FileSystem} {format : ReportFormat}
    {standard : String} (h : format.defaultPath? = some standard) (text : String) :
    (c.writeReport fs format text).1 =
      (fs.writeText (c.reportOut.getD (.ofText standard)) text).1 := by
  unfold writeReport reportPath?
  rw [h]
  rfl

theorem effects_run (c : CheckCommand) (fs : FileSystem) (period : Period) :
    c.Effects fs period (c.run fs period) where
  idle hpaths := by
    unfold run
    rw [if_pos (List.isEmpty_iff.mpr hpaths)]
    exact ⟨rfl, rfl, rfl⟩
  refused hpaths hrefused := leavesNoTrace_of_refused period hpaths hrefused
  text hpaths hrefused hformat := by
    match heval : c.evaluate fs period with
    | .error e => exact (leavesNoTrace_of_error hpaths heval).files
    | .ok (format, result) =>
      have hsame := (evaluate_eq_ok_iff.mp heval).1
      rw [ofSpelling_eq_ok_iff.mpr hformat] at hsame
      obtain rfl := Except.ok.inj hsame
      rw [(run_of_ok hpaths heval).2, writeReport_text]
  unreadable hpaths hrefused hunreadable := by
    match heval : c.evaluate fs period with
    | .error e => exact leavesNoTrace_of_error hpaths heval
    | .ok (format, result) =>
      have hformat := ofSpelling_eq_ok_iff.mp (evaluate_eq_ok_iff.mp heval).1
      exact absurd hunreadable ((exists_evaluate_eq_ok_iff hrefused hformat).mp ⟨result, heval⟩)
  file hpaths hrefused hreadable format hformat hfile := by
    obtain ⟨standard, hstandard⟩ := exists_defaultPath?_eq_some hfile
    obtain ⟨result, heval⟩ := (exists_evaluate_eq_ok_iff hrefused hformat).mpr hreadable
    obtain ⟨hstdout, hfiles⟩ := run_of_ok hpaths heval
    refine ⟨standard, result, hstandard, heval, fun hwritten ↦ ⟨?_, ?_⟩⟩
    · rw [hfiles, writeReport_of_defaultPath? hstandard]
      exact FileSystem.written_of_writeText hwritten
    · rw [hstdout]
      exact endsInOneBreak_printed _

end CheckCommand

/-- A check of no paths prints the banner and changes nothing. One that is refused prints nothing
and changes nothing, and ends with the status of an error. Any other one changes nothing if its
format is text, and otherwise writes its report to one file, makes the directories above that are
missing and prints what it writes. -/
theorem effects_check (verbosity : Nat) (quiet : Bool) (c : CheckCommand) (fs : FileSystem)
    (period : Period) :
    c.Effects fs period (runInvocation ⟨verbosity, quiet, .check c⟩ fs period) := by
  obtain ⟨idle, refused, text, unreadable, file⟩ := c.effects_run fs period
  refine ⟨idle, fun hpaths h ↦ (refused hpaths h).withNotes _, text,
    fun hpaths h hunreadable ↦ (unreadable hpaths h hunreadable).withNotes _,
    fun hpaths h hreadable format hformat hfile ↦ ?_⟩
  obtain ⟨standard, result, hstandard, heval, hreports⟩ :=
    file hpaths h hreadable format hformat hfile
  exact ⟨standard, result, hstandard, heval, fun hwritten ↦ (hreports hwritten).withNotes _⟩

/-- A check whose report goes to a directory that is missing, like the one above it. -/
def nestedReportCheck : CheckCommand :=
  { shellEntrypointCheck with reportOut := some (.ofText "out/ci/../report.xml") }

/-- The same check with a path that leads nowhere, behind one that leads to a file. -/
def missingPathCheck : CheckCommand :=
  { nestedReportCheck with paths := [.ofText "pod.yaml", .ofText "pod.yaml/"] }

theorem effects_check_nestedReport :
    (runInvocation ⟨0, true, .check missingPathCheck⟩ shellEntrypointFiles default).LeavesNoTrace
        shellEntrypointFiles ∧
      ∃ result, nestedReportCheck.evaluate shellEntrypointFiles default = .ok (.junit, result) ∧
        (runInvocation ⟨0, true, .check nestedReportCheck⟩ shellEntrypointFiles default).Reports
          shellEntrypointFiles (.ofText "out/ci/../report.xml") (result.report.render .junit) := by
  constructor
  · have hresolve : shellEntrypointFiles.resolve (.ofText "pod.yaml/") = .error .notDirectory := by
      decide +kernel
    have hmissing : shellEntrypointFiles.find (.ofText "pod.yaml/") = .error .notDirectory := by
      rw [FileSystem.find, hresolve]
      rfl
    exact (effects_check 0 true missingPathCheck shellEntrypointFiles default).refused (by decide)
      (.missingPath (List.mem_cons_of_mem _ List.mem_cons_self) hmissing)
  · have hformat : nestedReportCheck.AsksFor .junit :=
      CheckCommand.ofSpelling_eq_ok_iff.mp (by decide +kernel)
    obtain ⟨⟨format, found⟩, hfound, hsame⟩ : ∃ found,
        nestedReportCheck.evaluate shellEntrypointFiles default = .ok found ∧
          found.1 = ReportFormat.junit := by decide +kernel
    obtain rfl : format = .junit := hsame
    have hrefused := CheckCommand.not_refused_of_evaluate hfound
    obtain ⟨standard, result, -, heval, hreports⟩ :=
      (effects_check 0 true nestedReportCheck shellEntrypointFiles default).file (by decide)
        hrefused ((CheckCommand.exists_evaluate_eq_ok_iff hrefused hformat).mp ⟨found, hfound⟩)
        .junit hformat nofun
    refine ⟨result, heval, hreports ?_⟩
    rw [FileSystem.writeText_snd_congr _ _ _ ""]
    change (shellEntrypointFiles.writeText (.ofText "out/ci/../report.xml") "").2 = .ok ()
    decide +kernel

end CommandLine

end ShutdownLint
