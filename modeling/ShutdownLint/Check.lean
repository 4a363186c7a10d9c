import ShutdownLint.Files.Artifact
import ShutdownLint.Report.Basic
import ShutdownLint.Settings.Selection
import ShutdownLint.Workload
/-!
A run of the linter over files.

The settings are read and the overrides are followed first, then all paths are looked up, and only
then files are read, each as text in which malformed bytes have been replaced. The findings are
those of the artifacts one after another, without the ones under rules that are disabled.
-/

set_option autoImplicit false

namespace ShutdownLint

/-- What a run is asked to do. -/
structure CheckRequest where
  paths : List Path
  /-- The text of the settings file. -/
  settings : String
  /-- Spellings of rules to disable. -/
  overrides : List String
  deriving DecidableEq, Inhabited, Repr

/-- When a run took place. -/
structure Period where
  startedAt : Timestamp
  finishedAt : Timestamp
  deriving DecidableEq, Inhabited

/-- Why a run fails. -/
inductive CheckError where
  | badSettings
  | unknownRule (e : UnknownRule)
  | missingPath (e : MissingPath)
  | unreadable (path : Path) (cause : FileError)
  deriving DecidableEq, Inhabited, Repr

namespace CheckError

def message : CheckError → String
  | badSettings => "parse config"
  | unknownRule e => "resolve config: " ++ e.message
  | missingPath e => "collect artifacts: " ++ e.message
  | unreadable path cause => "read " ++ path.text ++ ": " ++ cause.message

end CheckError

structure CheckResult where
  report : Report
  selection : Selection
  deriving DecidableEq, Inhabited

namespace Check

/-- The settings in a text, of which a blank one has none. -/
def settingsOf (text : String) : Except CheckError Settings :=
  if (Text.trimChars text.toList).isEmpty then .ok .empty
  else
    match Settings.parse? text with
    | some s => .ok s
    | none => .error .badSettings

/-- The rules that are in force. -/
def selectionOf (request : CheckRequest) : Except CheckError Selection := do
  let settings ← settingsOf request.settings
  (Selection.ofSettings settings request.overrides).mapError .unknownRule

def artifactsOf (fs : FileSystem) (request : CheckRequest) : Except CheckError (List Artifact) :=
  (Artifact.ofArguments fs request.paths).mapError .missingPath

/-- All findings on an artifact. -/
def analyze (fs : FileSystem) (a : Artifact) : Except CheckError (List Finding) :=
  match fs.read a.path with
  | .ok bytes => .ok (a.kind.findings (Text.Utf8.lossy bytes) a.path.text)
  | .error e => .error (.unreadable a.path e)

/-- All findings on artifacts. -/
def analyzeAll (fs : FileSystem) : List Artifact → Except CheckError (List Finding)
  | [] => .ok []
  | a :: more => do
    let first ← analyze fs a
    let others ← analyzeAll fs more
    return first ++ others

/-- The findings under rules that are in force. -/
def select (s : Selection) (fs : List Finding) : List Finding :=
  fs.filter fun f ↦ s.isEnabled f.rule

def run (fs : FileSystem) (period : Period) (request : CheckRequest) :
    Except CheckError CheckResult := do
  let selection ← selectionOf request
  let artifacts ← artifactsOf fs request
  let findings ← analyzeAll fs artifacts
  let report := Report.ofFindings period.startedAt period.finishedAt artifacts.length
    (select selection findings)
  return { report, selection }

end Check

end ShutdownLint
