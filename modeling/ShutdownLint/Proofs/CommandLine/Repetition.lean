import ShutdownLint.Proofs.CommandLine.Effects
import ShutdownLint.Proofs.Files.Overwriting
/-!
A check that is made again. Its own report is in the working directory by then, but under a name
that no artifact has, so the same artifacts are found and read, also where the report lies in a
directory that is walked through. The settings are the same unless their path comes by the report:
where one leads through it nothing was found before, and now there is a file in the way.
-/

set_option autoImplicit false

namespace ShutdownLint

open Success

/-! ### Default paths -/

namespace ReportFormat

variable {format : ReportFormat} {standard : String}

theorem segments_of_defaultPath? (h : format.defaultPath? = some standard) :
    (Path.ofText standard).segments = [standard] := by
  cases format with
  | text => cases h
  | junit | sarif | json =>
    cases h
    decide +kernel

theorem isName_of_defaultPath? (h : format.defaultPath? = some standard) :
    Path.IsName standard := by
  cases format with
  | text => cases h
  | junit | sarif | json =>
    cases h
    decide

/-- No report is taken for an artifact. -/
theorem ofFileName?_of_defaultPath? (h : format.defaultPath? = some standard) :
    ArtifactKind.ofFileName? standard = none := by
  cases format with
  | text => cases h
  | junit | sarif | json =>
    cases h
    decide +kernel

end ReportFormat

namespace FileSystem

variable {fs after : FileSystem} {format : ReportFormat} {standard : String}

theorem start_of_single {p : Path} {name : String} (h : p.segments = [name]) :
    fs.start p = (fs.workingDirectory, [name]) := by
  unfold start
  rw [h]
  split
  · rename_i hsegments
    cases hsegments
  · rfl

theorem follow_of_name {place next : List String} {name : String} (hname : Path.IsName name)
    (h : fs.follow place name = .ok next) : next = place ++ [name] := by
  obtain ⟨-, ⟨hidle, -⟩ | ⟨hup, -⟩ | ⟨-, -, hnext, -⟩⟩ := follow_eq_ok_iff.mp h
  · exact absurd hname.1 (by simp [hidle])
  · exact absurd hup hname.2
  · exact hnext

/-- A path of one name leads to it from the working directory. -/
theorem follow_of_resolve_single {p : Path} {name : String} (h : p.segments = [name])
    (hname : Path.IsName name) {place : List String} (hplace : fs.resolve p = .ok place) :
    fs.follow fs.workingDirectory name = .ok place ∧ place = fs.workingDirectory ++ [name] := by
  have hfold := (resolve_eq_ok_iff.mp hplace).2
  rw [start_of_single h] at hfold
  have hfollow : fs.follow fs.workingDirectory name = .ok place := by simpa using hfold
  exact ⟨hfollow, follow_of_name hname hfollow⟩

/-- A report goes to the working directory, and no other directory has to be made for it. -/
theorem createParent_of_defaultPath? (fs : FileSystem) (h : format.defaultPath? = some standard) :
    fs.createParent (.ofText standard) = (fs, .ok ()) := by
  have hparent : (Path.ofText standard).parent? = some ⟨[""]⟩ := by
    cases format with
    | text => cases h
    | junit | sarif | json =>
      cases h
      decide +kernel
  unfold createParent
  rw [hparent]
  rfl

/-- One file system comes from another by a report that was written to this name in the working
directory. -/
structure HasReport (before after : FileSystem) (standard : String) (content : List UInt8) :
    Prop where
  replaces : Replaces before after (before.workingDirectory ++ [standard]) (.file content)
  file : before.viewAt (before.workingDirectory ++ [standard]) ≠ some .directory
  follow : after.follow before.workingDirectory standard =
    .ok (before.workingDirectory ++ [standard])
  resolve : after.resolve (.ofText standard) = .ok (before.workingDirectory ++ [standard])
  wellNamed : before.root.WellNamed → after.root.WellNamed

theorem hasReport_of_writeText (h : format.defaultPath? = some standard) {text : String}
    (hwritten : (fs.writeText (.ofText standard) text).2 = .ok ()) :
    HasReport fs (fs.writeText (.ofText standard) text).1 standard (Text.Utf8.encode text) ∧
      ∀ text', ((fs.writeText (.ofText standard) text).1.writeText (.ofText standard) text').2 =
        .ok () := by
  have hcreate := fs.createParent_of_defaultPath? h
  cases hwrite : fs.write (.ofText standard) (Text.Utf8.encode text) with
  | error e =>
    simp only [writeText, hcreate, hwrite, reduceCtorEq] at hwritten
  | ok after =>
    simp only [writeText, hcreate, hwrite]
    obtain ⟨place, hold, hreplaces, hresolve⟩ := write_eq_ok hwrite
    obtain ⟨hfollow, hend⟩ := follow_of_resolve_single (ReportFormat.segments_of_defaultPath? h)
      (ReportFormat.isName_of_defaultPath? h) hresolve
    rw [hreplaces.workingDirectory] at hfollow hend
    subst hend
    refine ⟨⟨hreplaces, hold, hfollow, hresolve, fun hnamed ↦ wellNamed_of_write hnamed hwrite⟩, ?_⟩
    intro text'
    obtain ⟨last, hlast⟩ := exists_write_again hwrite (Text.Utf8.encode text')
    simp only [after.createParent_of_defaultPath? h, hlast]

end FileSystem

/-! ### The second run -/

/-- Where artifacts are read as before they are analyzed as before. -/
theorem Check.analyzeAll_of_read {before after : FileSystem} {artifacts : List Artifact}
    (h : ∀ a ∈ artifacts, ∀ bytes, before.read a.path = .ok bytes →
      after.read a.path = .ok bytes) {found : List Finding}
    (hfound : analyzeAll before artifacts = .ok found) :
    analyzeAll after artifacts = .ok found := by
  induction artifacts generalizing found with
  | nil => exact hfound
  | cons a artifacts ih =>
    obtain ⟨hfirst, hrest⟩ := List.forall_mem_cons.mp h
    obtain ⟨block, others, hblock, hothers, rfl⟩ := analyzeAll_cons_eq_ok_iff.mp hfound
    obtain ⟨bytes, hbytes, hanalyzed⟩ := analyze_eq_ok_iff.mp hblock
    exact analyzeAll_cons_eq_ok_iff.mpr ⟨block, others,
      analyze_eq_ok_iff.mpr ⟨bytes, hfirst bytes hbytes, hanalyzed⟩, ih hrest hothers, rfl⟩

namespace CommandLine

open FileSystem

/-- Two results tell the same, except when they came about. -/
structure SameResult (r s : CheckResult) : Prop where
  findings : s.report.findings = r.report.findings
  summary : s.report.summary = r.report.summary
  verdict : s.report.verdict = r.report.verdict

namespace CheckCommand

variable {c : CheckCommand} {fs after : FileSystem} {format : ReportFormat} {standard : String}
  {content : List UInt8}

theorem readSettings_of_hasReport (hreport : HasReport fs after standard content) {p : Path}
    (hp : ¬after.ComesBy p (fs.workingDirectory ++ [standard])) :
    readSettings after p = readSettings fs p := by
  have hread : after.readText p = fs.readText p := by
    unfold readText
    rw [hreport.replaces.read_eq hreport.follow hp]
  unfold readSettings
  rw [hread]

/-- A check comes to the same result when its report is there. -/
theorem evaluate_of_hasReport (hfs : fs.root.WellNamed) (h : format.defaultPath? = some standard)
    (hreport : HasReport fs after standard content)
    (hconfig : ¬after.ComesBy c.config (fs.workingDirectory ++ [standard])) {period : Period}
    {result : CheckResult} (heval : c.evaluate fs period = .ok (format, result))
    (period' : Period) :
    ∃ result', c.evaluate after period' = .ok (format, result') ∧ SameResult result result' := by
  obtain ⟨hformat, text, htext, hrun⟩ := evaluate_eq_ok_iff.mp heval
  obtain ⟨selection, artifacts, found, hselection, hartifacts, hfound, rfl⟩ :=
    Check.run_eq_ok_iff.mp hrun
  have hnone := ReportFormat.ofFileName?_of_defaultPath? h
  have hartifacts' := Artifact.ofArguments_of_replaces hreport.replaces hreport.file hnone hfs
    (hreport.wellNamed hfs) hartifacts
  have hfound' : Check.analyzeAll after artifacts = .ok found :=
    Check.analyzeAll_of_read (fun a ha bytes hbytes ↦ Artifact.read_of_replaces hreport.replaces
      hreport.file hnone (Artifact.ofPath?_of_mem_ofArguments hartifacts ha) hbytes) hfound
  have htext' := (readSettings_of_hasReport hreport hconfig).trans htext
  exact ⟨_, evaluate_eq_ok_iff.mpr ⟨hformat, text, htext', Check.run_eq_ok_iff.mpr
    ⟨selection, artifacts, found, hselection, hartifacts', hfound', rfl⟩⟩, ⟨rfl, rfl, rfl⟩⟩

theorem run_of_no_paths (h : c.paths = []) (period : Period) :
    c.run fs period = .succeed fs banner := by
  unfold run
  rw [if_pos (List.isEmpty_iff.mpr h)]

theorem writeReport_eq (hout : c.reportOut = none) (h : format.defaultPath? = some standard)
    (text : String) : c.writeReport fs format text =
      ((fs.writeText (.ofText standard) text).1,
        (fs.writeText (.ofText standard) text).2.mapError .report) := by
  unfold writeReport reportPath?
  rw [h, hout]
  rfl

theorem exitCode_of_written (hpaths : c.paths ≠ []) (hout : c.reportOut = none)
    (h : format.defaultPath? = some standard) {period : Period} {result : CheckResult}
    (heval : c.evaluate fs period = .ok (format, result))
    (hwritten : (fs.writeText (.ofText standard) (result.report.render format)).2 = .ok ()) :
    (c.run fs period).exitCode = result.report.verdict.exitCode := by
  rw [exitCode_run_of_ok hpaths heval, writeReport_eq hout h, hwritten]
  rfl

/-- A check that does not fail has written its report. -/
theorem written_of_exitCode_ne (hpaths : c.paths ≠ []) (hout : c.reportOut = none)
    (h : format.defaultPath? = some standard) {period : Period} {result : CheckResult}
    (heval : c.evaluate fs period = .ok (format, result))
    (hcode : (c.run fs period).exitCode ≠ Outcome.errorCode) :
    (fs.writeText (.ofText standard) (result.report.render format)).2 = .ok () ∧
      (c.run fs period).files =
        (fs.writeText (.ofText standard) (result.report.render format)).1 := by
  rw [exitCode_run_of_ok hpaths heval, writeReport_eq hout h] at hcode
  rw [(run_of_ok hpaths heval).2, writeReport_eq hout h]
  refine ⟨?_, rfl⟩
  cases hwritten : (fs.writeText (.ofText standard) (result.report.render format)).2 with
  | ok done => rfl
  | error e =>
    rw [hwritten] at hcode
    exact absurd rfl hcode

end CheckCommand

/-- The path where settings are looked for if nothing else is said never comes by a report. -/
theorem not_comesBy_defaultConfig {fs : FileSystem} {format : ReportFormat} {standard : String}
    (h : format.defaultPath? = some standard) {place : List String}
    (hplace : fs.resolve (.ofText standard) = .ok place) :
    ¬fs.ComesBy (.ofText CheckCommand.defaultConfig) place := by
  have hconfig : (Path.ofText CheckCommand.defaultConfig).segments =
      [CheckCommand.defaultConfig] := by decide +kernel
  obtain ⟨-, rfl⟩ := follow_of_resolve_single (ReportFormat.segments_of_defaultPath? h)
    (ReportFormat.isName_of_defaultPath? h) hplace
  rintro ⟨front, hfront, hlast⟩
  rw [start_of_single hconfig] at hfront hlast
  rcases List.prefix_cons_iff.mp hfront with rfl | ⟨rest, rfl, hrest⟩
  · have hstay : fs.workingDirectory = fs.workingDirectory ++ [standard] := Except.ok.inj hlast
    exact absurd hstay (by simp)
  · obtain rfl := List.prefix_nil.mp hrest
    have hname : Path.IsName CheckCommand.defaultConfig := by decide
    have hend := follow_of_name hname (by simpa using hlast)
    have hsame : standard = CheckCommand.defaultConfig := by simpa using hend
    cases format with
    | text => cases h
    | junit | sarif | json =>
      cases h
      exact absurd hsame (by decide)

/-- A check without a path for its report ends like the first time if it is made again, unless it
fails at first or the path of its settings comes by the report. It has the same result, whatever
directories it walks through and whether or not its report is one of its paths. -/
theorem runInvocation_again (verbosity : Nat) (quiet : Bool) {c : CheckCommand}
    (hout : c.reportOut = none) {format : ReportFormat} (hformat : c.AsksFor format)
    {standard : String} (hstandard : format.defaultPath? = some standard) {fs : FileSystem}
    (hfs : fs.root.WellNamed) {period : Period} {first : Outcome}
    (hfirst : runInvocation ⟨verbosity, quiet, .check c⟩ fs period = first)
    (hcode : first.exitCode = 0 ∨ first.exitCode = 1)
    (hconfig : ∀ place, first.files.resolve (.ofText standard) = .ok place →
      ¬first.files.ComesBy c.config place) (period' : Period) :
    (runInvocation ⟨verbosity, quiet, .check c⟩ first.files period').exitCode = first.exitCode ∧
      (c.paths ≠ [] → ∃ result result', c.evaluate fs period = .ok (format, result) ∧
        c.evaluate first.files period' = .ok (format, result') ∧ SameResult result result') := by
  subst hfirst
  by_cases hpaths : c.paths = []
  · simp only [exitCode_runInvocation_check, CheckCommand.run_of_no_paths hpaths]
    exact ⟨rfl, fun h ↦ absurd hpaths h⟩
  have hcode' : (c.run fs period).exitCode ≠ Outcome.errorCode := by
    rintro h
    rw [exitCode_runInvocation_check, h] at hcode
    revert hcode
    decide
  cases heval : c.evaluate fs period with
  | error e => exact absurd (CheckCommand.exitCode_run_of_error hpaths heval) hcode'
  | ok pair =>
    obtain ⟨format', result⟩ := pair
    obtain rfl : format' = format := by
      have hsame := (CheckCommand.evaluate_eq_ok_iff.mp heval).1
      rw [CheckCommand.ofSpelling_eq_ok_iff.mpr hformat] at hsame
      exact (Except.ok.inj hsame).symm
    obtain ⟨hwritten, hfiles⟩ :=
      CheckCommand.written_of_exitCode_ne hpaths hout hstandard heval hcode'
    obtain ⟨hreport, hagain⟩ := FileSystem.hasReport_of_writeText hstandard hwritten
    rw [← hfiles] at hreport hagain
    obtain ⟨result', heval', hsame⟩ := CheckCommand.evaluate_of_hasReport hfs hstandard hreport
      (hconfig _ hreport.resolve) heval period'
    refine ⟨?_, fun _ ↦ ⟨result, result', rfl, heval', hsame⟩⟩
    rw [exitCode_runInvocation_check, exitCode_runInvocation_check,
      CheckCommand.exitCode_of_written hpaths hout hstandard heval hwritten, ← hsame.verdict]
    exact CheckCommand.exitCode_of_written hpaths hout hstandard heval' (hagain _)

/-- A build file and the report of an earlier check. -/
def reportedFiles : FileSystem where
  root := .directory [("Dockerfile", .file (Text.Utf8.encode "ENTRYPOINT run\n")),
    ("drainguard-report.xml", .file [])]
  workingDirectory := []

/-- A check of both files. -/
def reportedCheck : CheckCommand where
  config := .ofText CheckCommand.defaultConfig
  format := "junit"
  reportOut := none
  disable := []
  paths := [.ofText "drainguard-report.xml", .ofText "Dockerfile"]

theorem runInvocation_again_reportedCheck :
    let first := runInvocation ⟨0, false, .check reportedCheck⟩ reportedFiles default
    reportedFiles.root.WellNamed ∧ reportedCheck.AsksFor .junit ∧ first.exitCode = 1 ∧
      (runInvocation ⟨0, false, .check reportedCheck⟩ first.files default).exitCode = 1 := by
  intro first
  have hnamed : reportedFiles.root.WellNamed := by
    simp [reportedFiles, FileTree.wellNamed_directory_iff, FileTree.WellNamed.file, Path.IsName,
      Path.isStep]
  have hformat : reportedCheck.AsksFor .junit :=
    CheckCommand.ofSpelling_eq_ok_iff.mp (by decide +kernel)
  have hstandard : ReportFormat.junit.defaultPath? = some "drainguard-report.xml" := rfl
  have hcode : first.exitCode = 1 := by decide +kernel
  have hagain := runInvocation_again 0 false rfl hformat hstandard hnamed rfl (Or.inr hcode)
    (fun place hplace ↦ not_comesBy_defaultConfig hstandard hplace) default
  exact ⟨hnamed, hformat, hcode, hagain.1.trans hcode⟩

/-- A check that looks for its settings where a way through its report would lead. -/
def throughReportCheck : CheckCommand :=
  { reportedCheck with
    config := .ofText "drainguard-report.xml/drainguard.toml", paths := [.ofText "Dockerfile"] }

/-- A build file alone. -/
def buildFileOnly : FileSystem where
  root := .directory [("Dockerfile", .file (Text.Utf8.encode "FROM x\n"))]
  workingDirectory := []

/-- At first there are no settings, and that is fine. Then there is a file in the way to them, and
that is an error, though they would be in another place than the report. -/
theorem runInvocation_again_fails_throughReport :
    let first := runInvocation ⟨0, false, .check throughReportCheck⟩ buildFileOnly default
    buildFileOnly.root.WellNamed ∧ throughReportCheck.AsksFor .junit ∧
      throughReportCheck.reportOut = none ∧ first.exitCode = 0 ∧
      first.files.resolve (.ofText "drainguard-report.xml") = .ok ["drainguard-report.xml"] ∧
      first.files.resolve throughReportCheck.config ≠ .ok ["drainguard-report.xml"] ∧
      (runInvocation ⟨0, false, .check throughReportCheck⟩ first.files default).exitCode =
        Outcome.errorCode := by
  intro first
  refine ⟨?_, CheckCommand.ofSpelling_eq_ok_iff.mp (by decide +kernel), rfl, ?_, ?_, ?_, ?_⟩
  · simp [buildFileOnly, FileTree.wellNamed_directory_iff, FileTree.WellNamed.file, Path.IsName,
      Path.isStep]
  · decide +kernel
  · decide +kernel
  · decide +kernel
  · decide +kernel

end CommandLine

end ShutdownLint
