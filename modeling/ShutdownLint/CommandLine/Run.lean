import ShutdownLint.Check
import ShutdownLint.CommandLine.Arguments
import ShutdownLint.Report.Format
import ShutdownLint.Report.Output
import ShutdownLint.Rule.Explanation
/-!
What a command does: what it prints, which files it writes and how it ends.

The report of a check is printed, and written to a file as well if its format is not text. Nothing
is printed or written unless the whole check succeeds; a report that cannot be written has been
printed all the same. Notes tell how a check proceeds to those who ask for them.
-/

set_option autoImplicit false

namespace ShutdownLint.CommandLine

/-! ### Outcomes -/

/-- Something that is told only to those who ask for it. -/
structure Note where
  /-- How often notes have to be asked for until this one is shown. -/
  verbosity : Nat
  text : String
  deriving DecidableEq, Inhabited, Repr

structure Outcome where
  stdout : String
  stderr : String
  /-- The notes to show, which go to the standard error, too. -/
  notes : List Note
  exitCode : UInt32
  /-- The file system afterwards. -/
  files : FileSystem
  deriving Inhabited

namespace Outcome

def succeed (fs : FileSystem) (stdout : String) : Outcome :=
  ⟨stdout, "", [], 0, fs⟩

/-- The exit status of a run that ends with an error. -/
def errorCode : UInt32 := 2

end Outcome

/-- Why a command fails. -/
inductive RunError where
  | unknownFormat (e : UnknownFormat)
  | unreadableSettings (path : Path) (cause : FileError)
  | check (e : CheckError)
  | report (e : WriteError)
  deriving DecidableEq, Inhabited, Repr

namespace RunError

def message : RunError → String
  | unknownFormat e => e.message
  | unreadableSettings path cause => "read config: " ++ path.text ++ ": " ++ cause.message
  | check e => e.message
  | report e => "write report: " ++ e.message

/-- The message as it is printed. -/
def text (e : RunError) : String :=
  "drainguard error: " ++ e.message ++ "\n"

end RunError

/-! ### Texts -/

def versionText : String :=
  Tool.this.name ++ " " ++ Tool.this.version ++ "\n"

/-- What is printed if there is nothing to check. -/
def banner : String :=
  Report.displayName ++ " v" ++ Tool.this.version ++
    ": Container graceful shutdown compliance validator\n\n" ++
    "Usage: drainguard check [--format text|junit|sarif|json] [PATHS]...\n\n" ++
    "  Dockerfiles are checked for shell-form ENTRYPOINT/CMD.\n" ++
    "  YAML manifests are checked for terminationGracePeriodSeconds,\n" ++
    "  preStop hooks and readiness probes.\n"

/-- What is printed if the arguments make no sense. -/
def usageText : String :=
  "Usage: drainguard [--config PATH] [-v] [-q] check [--format FORMAT] [--report-out PATH] " ++
    "[--disable RULE] [PATHS]...\n       drainguard explain RULE\n"

/-! ### Checks -/

/-- The text of the settings file, which may be missing. -/
def readSettings (fs : FileSystem) (p : Path) : Except RunError String :=
  match fs.readText p with
  | .ok text => .ok text
  | .error .notFound => .ok ""
  | .error e => .error (.unreadableSettings p e)

namespace CheckCommand

/-- Runs the check without printing or writing anything. -/
def evaluate (c : CheckCommand) (fs : FileSystem) (period : Period) :
    Except RunError (ReportFormat × CheckResult) := do
  let format ← (ReportFormat.ofSpelling c.format).mapError .unknownFormat
  let settings ← readSettings fs c.config
  let request : CheckRequest := { paths := c.paths, settings, overrides := c.disable }
  let result ← (Check.run fs period request).mapError .check
  return (format, result)

/-- Where the report is to be written, if it is. -/
def reportPath? (c : CheckCommand) (format : ReportFormat) : Option Path :=
  format.defaultPath?.map fun p ↦ c.reportOut.getD (.ofText p)

/-- Writes the report if its format is for files. -/
def writeReport (c : CheckCommand) (fs : FileSystem) (format : ReportFormat) (text : String) :
    FileSystem × Except RunError Unit :=
  match c.reportPath? format with
  | none => (fs, .ok ())
  | some p =>
    let (fs, written) := fs.writeText p text
    (fs, written.mapError .report)

/-- A report as it is printed, with a single line feed at its end. -/
def printed (text : String) : String :=
  Text.dropLastBreaks text ++ "\n"

def run (c : CheckCommand) (fs : FileSystem) (period : Period) : Outcome :=
  if c.paths.isEmpty then .succeed fs banner
  else
    match c.evaluate fs period with
    | .error e => ⟨"", e.text, [], Outcome.errorCode, fs⟩
    | .ok (format, result) =>
      let text := result.report.render format
      match c.writeReport fs format text with
      | (fs, .error e) => ⟨printed text, e.text, [], Outcome.errorCode, fs⟩
      | (fs, .ok ()) => ⟨printed text, "", [], result.report.verdict.exitCode, fs⟩

/-! ### Notes -/

/-- The files of arguments up to one that is missing, and whether all arguments are there. -/
def filesLookedAt (fs : FileSystem) : List Path → List Path × Bool
  | [] => ([], true)
  | p :: ps =>
    match Artifact.candidates fs p with
    | .error _ => ([], false)
    | .ok files =>
      let (more, complete) := filesLookedAt fs ps
      (files ++ more, complete)

def settingsNotes (c : CheckCommand) (fs : FileSystem) : List Note :=
  match fs.readText c.config with
  | .error .notFound => [⟨2, "no config at " ++ c.config.text ++ ", using defaults"⟩]
  | _ => []

def passedOverNote? (p : Path) : Option Note :=
  if (Artifact.ofPath? p).isSome then none
  else some ⟨2, "skipping " ++ p.text ++ ": not a build file or manifest"⟩

def artifactNote (fs : FileSystem) (a : Artifact) : Note :=
  let count := match Check.analyze fs a with
    | .ok findings => findings.length
    | .error _ => 0
  ⟨2, a.path.text ++ " (" ++ a.kind.name ++ "): " ++ Decimal.text count ++ " finding(s)"⟩

def analysisNotes (fs : FileSystem) (files : List Path) : List Note :=
  let artifacts := files.filterMap Artifact.ofPath?
  ⟨1, "analyzing " ++ Decimal.text artifacts.length ++ " artifact(s)"⟩ ::
    artifacts.map (artifactNote fs)

/-- The notes on looking for files, which comes after the selection of rules. -/
def searchNotes (c : CheckCommand) (fs : FileSystem) : List Note :=
  let (files, complete) := filesLookedAt fs c.paths
  files.filterMap passedOverNote? ++ if complete then analysisNotes fs files else []

/-- The notes on the report, which is the last thing that can fail. -/
def reportNotes (c : CheckCommand) (fs : FileSystem) (period : Period) : List Note :=
  match c.evaluate fs period with
  | .error _ => []
  | .ok (format, result) =>
    match c.reportPath? format, c.writeReport fs format (result.report.render format) with
    | some p, (_, .ok ()) => [⟨1, "report written to " ++ p.text⟩]
    | _, _ => []

/-- All notes on a check, as far as it gets. -/
def notes (c : CheckCommand) (fs : FileSystem) (period : Period) : List Note :=
  match ReportFormat.ofSpelling c.format, readSettings fs c.config with
  | .ok _, .ok settings =>
    let request : CheckRequest := { paths := c.paths, settings, overrides := c.disable }
    c.settingsNotes fs ++
      match Check.selectionOf request with
      | .error _ => []
      | .ok _ => c.searchNotes fs ++ c.reportNotes fs period
  | _, _ => []

end CheckCommand

/-! ### All commands -/

def explain (fs : FileSystem) (rule : String) : Outcome :=
  let answer := Answer.ofQuestion rule
  match answer with
  | .found _ => .succeed fs answer.render
  | .notFound _ => ⟨"", answer.render, [], 1, fs⟩

/-- The notes that are shown for a check. -/
def shownNotes (i : Invocation) (c : CheckCommand) (fs : FileSystem) (period : Period) :
    List Note :=
  if i.quiet || i.verbosity = 0 || c.paths.isEmpty then []
  else (c.notes fs period).filter (·.verbosity ≤ i.verbosity)

def runInvocation (i : Invocation) (fs : FileSystem) (period : Period) : Outcome :=
  match i.command with
  | .explain rule => explain fs rule
  | .check c => { c.run fs period with notes := shownNotes i c fs period }

def run (args : List String) (fs : FileSystem) (period : Period) : Outcome :=
  match Invocation.ofArguments args with
  | .ok i => runInvocation i fs period
  | .error .help => .succeed fs (banner ++ "\n" ++ usageText)
  | .error .version => .succeed fs versionText
  | .error .usage => ⟨"", usageText, [], Outcome.errorCode, fs⟩

end ShutdownLint.CommandLine
